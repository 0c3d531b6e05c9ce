import TensorDag.Operator.Dimensions
import TensorDag.Proofs.Forming
import TensorDag.Proofs.Gathering
import TensorDag.Proofs.Layers
import TensorDag.Proofs.Respelling
import TensorDag.Proofs.Sliding

/-!
Transposed convolutions. The result has the size over which the windows slide into as many places as there are cells;
a convolution of it has the former sizes again. Behind a convolution the sizes come back less what the last step
leaves over.
-/
namespace TensorDag

/-! Sizes along an axis. -/

/-- The size over which a window slides into a number of places. -/
def spanned (count window : Nat) (padding stride : Int) : Int := (count - 1) * stride - 2 * padding + window

section spanned
variable {count window size : Nat} {padding stride : Int}

theorem spanned_slid (forward : 1 ≤ stride) :
    (spanned count window padding stride + 2 * padding - window).fdiv stride + 1 = count := by
  have room : spanned count window padding stride + 2 * padding - window = (count - 1) * stride := by
    rw [spanned]
    ring
  rw [room, Int.mul_fdiv_cancel _ (by omega)]
  omega

theorem spanned_fits (forward : 1 ≤ stride) :
    (window : Int) ≤ spanned count window padding stride + 2 * padding ↔ 1 ≤ count := by
  have room : spanned count window padding stride + 2 * padding = (count - 1) * stride + window := by
    rw [spanned]
    ring
  rw [room, le_add_iff_nonneg_left, Int.mul_nonneg_iff_of_pos_right (by omega)]
  omega

theorem spanned_of_slid (forward : 1 ≤ stride) (slid : (count : Int) = (size + 2 * padding - window).fdiv stride + 1) :
    spanned count window padding stride = size - (size + 2 * padding - window) % stride := by
  have split := Int.emod_add_mul_ediv (size + 2 * padding - window) stride
  rw [Int.fdiv_eq_ediv_of_nonneg _ (by omega)] at slid
  rw [spanned, slid, Int.add_sub_cancel, Int.mul_comm]
  omega

end spanned

namespace ConvolutionAttributes
variable {c : ConvolutionAttributes} {batch channels height width outputs rows columns : Nat}

theorem shape_spanned {tall wide outputs' : Nat} (slides : Kind.Slides c)
    (high : (tall : Int) = spanned height rows c.padding.1 c.stride.1)
    (long : (wide : Int) = spanned width columns c.padding.2 c.stride.2) :
    c.shape [batch, channels, tall, wide] [outputs', channels, rows, columns] = .ok [batch, outputs, height, width] ↔
      outputs = outputs' ∧ 1 ≤ height ∧ 1 ≤ width := by
  rw [shape_iff slides, high, long, spanned_fits slides.steps.1, spanned_fits slides.steps.2,
    spanned_slid slides.steps.1, spanned_slid slides.steps.2]
  simp only [List.map_cons, List.map_nil, List.cons.injEq, Int.ofNat_eq_natCast, Int.natCast_inj, and_true, true_and]
  exact ⟨fun ⟨above, beside, same⟩ => ⟨same, above, beside⟩, fun ⟨same, above, beside⟩ => ⟨above, beside, same⟩⟩

end ConvolutionAttributes

namespace Value

theorem number_int (i : Int) : (Value.int i).number = .ok (.ofInt i) := rfl

theorem floorDiv_int {i j : Int} (used : j ≠ 0) : (Number.ofInt i).floorDiv (.ofInt j) = .ok (.ofInt (i.fdiv j)) := by
  have zero : (Number.ofInt j).isZero = false := by
    simp [Number.isZero, Number.ofInt, compareNumbers, used]
  rw [Number.floorDiv, zero]
  rfl

theorem below_int (i j : Int) : (Number.ofInt i).below (.ofInt j) = decide (i < j) := by
  simp [Number.below, Number.ofInt, compareNumbers, Int.compare_eq_lt]

theorem slid_int {padding stride : Value} {place : Nat} {size window margin step : Int}
    (padded : padding.member place = .ok (.int margin)) (stepped : stride.member place = .ok (.int step))
    (used : step ≠ 0) : slid padding stride place (.int size) (.int window) =
      .ok (.ofInt (size + 2 * margin), .ofInt ((size + 2 * margin - window).fdiv step + 1)) := by
  have quotient := floorDiv_int (i := size + 2 * margin - window) used
  rw [slid, padded, stepped]
  refine congrArg (fun r : Result Number => (do
    let places ← r
    return (Number.ofInt (size + 2 * margin), ← places.add (.ofInt 1)) : Result (Number × Number))) quotient

/-- A shape asked for directly is the one that the rules give. -/
theorem convolutionShape_eq {a b : Value} {batch channels height width outputs inputs rows columns : Int}
    {p s : Int × Int} (first : a.items? = some ([batch, channels, height, width].map .int))
    (second : b.items? = some ([outputs, inputs, rows, columns].map .int)) (forward : 1 ≤ s.1 ∧ 1 ≤ s.2) :
    a.convolutionShape b (.ofPair p) (.ofPair s) =
      TensorDag.convolutionShape [batch, channels, height, width] [outputs, inputs, rows, columns] p s := by
  have down : slid (.ofPair p) (.ofPair s) 0 (.int height) (.int rows) =
      .ok (.ofInt (height + 2 * p.1), .ofInt ((height + 2 * p.1 - rows).fdiv s.1 + 1)) :=
    slid_int rfl rfl (by omega)
  have right : slid (.ofPair p) (.ofPair s) 1 (.int width) (.int columns) =
      .ok (.ofInt (width + 2 * p.2), .ofInt ((width + 2 * p.2 - columns).fdiv s.2 + 1)) :=
    slid_int rfl rfl (by omega)
  have same : sameKey (.int channels) (.int inputs) = decide (channels = inputs) := Param.same_int channels inputs
  have steps : ¬(s.1 = 0 ∨ s.2 = 0) := by omega
  have read : a.sequence = .ok ([batch, channels, height, width].map .int) := by
    rw [sequence, first]
    rfl
  have read' : b.sequence = .ok ([outputs, inputs, rows, columns].map .int) := by
    rw [sequence, second]
    rfl
  rw [convolutionShape, read, read', TensorDag.convolutionShape, if_neg steps]
  simp only [List.map_cons, List.map_nil, bind, Except.bind, same, down, right, number_int, below_int,
    Bool.not_eq_true', decide_eq_false_iff_not, Bool.or_eq_true, decide_eq_true_eq, or_assoc, Bool.false_eq_true,
    false_or]
  rfl

end Value

namespace Building
variable {y f : Node} {padding stride : Value} {p s : Int × Int}
variable {batch outputs height width outputs' channels rows columns : Nat}

theorem convolutionTranspose_eq (turned : y.shape = [batch, outputs, height, width])
    (kernel : f.shape = [outputs', channels, rows, columns]) (margins : padding.NamesPair p)
    (steps : stride.NamesPair s) (below : 0 ≤ p.1 ∧ 0 ≤ p.2) (forward : 1 ≤ s.1 ∧ 1 ≤ s.2) :
    convolutionTranspose (.node y) (.node f) padding stride = apply .featuresGradient [y, f]
      (entry "features_shape" (.ints [batch, channels, spanned height rows p.1 s.1, spanned width columns p.2 s.2]) ::
        (Window.mk (.ofPair p) (.ofPair s)).entries) := by
  have padded := Value.pair_names margins "convolution_transpose" "padding" 0
  have stepped := Value.pair_names steps "convolution_transpose" "stride" 1
  rw [if_neg (by omega)] at padded stepped
  have start : ∀ {α β : Type} (a : α) (k : α → Building β), (of (.ok a) >>= k) = k a := fun _ _ => rfl
  have next : ∀ {α β : Type} (a : α) (k : α → Building β), (pure a >>= k) = k a := fun _ _ => rfl
  simp only [convolutionTranspose, asNode, padded, stepped, start, next, turned, kernel, List.map_cons, List.map_nil]
  rfl

end Building

/-! Convolutions and what is transposed. -/

theorem Param.ofPair_injective : Function.Injective Param.ofPair := by
  rintro ⟨i, j⟩ ⟨k, l⟩ same
  simpa [Param.ofPair, Param.ints] using same

/-- A convolution of features with filters, with the margins and strides of its window. -/
structure Node.ConvolutionOf (y x f : Node) (p s : Int × Int) : Prop where
  named : y.kind = Kind.convolution.name
  inputs : y.inputs = [x, f]
  padding : y.params.get "padding" = .ok (.ofPair p)
  stride : y.params.get "stride" = .ok (.ofPair s)

namespace Workspace
open Building (entry)
variable {w v : Workspace} {x y f n : Node} {c : ConvolutionAttributes}

/-- A gradient leads back to features whose convolution has its shape. -/
theorem Coherent.featuresGradient_typed (coherent : w.Coherent ShapeRules.Lasting) (own : y ∈ w.graph.nodes)
    (own' : f ∈ w.graph.nodes) {dims : List Int} (made : Building.apply .featuresGradient [y, f]
      (entry "features_shape" (.ints dims) :: (Kind.window c).entries) w = .ok n v) :
    ∃ s, dims = s.map Int.ofNat ∧ f.elementType = y.elementType ∧ c.shape s f.shape = .ok y.shape ∧
      n.type = ⟨y.elementType, s⟩ := by
  obtain ⟨ps, normal, inferred, _⟩ := coherent.apply (by simp [own, own']) made
  obtain ⟨op, spelled, read⟩ := Kind.normalize_spells normal
  obtain ⟨op', read', typed⟩ := Result.bind_eq_ok.mp inferred
  cases read.symm.trans read'
  obtain ⟨c', found, wrapped⟩ := Result.bind_eq_ok.mp spelled
  cases wrapped
  obtain ⟨padding, stride, features, _⟩ := Kind.spellConvolution_eq_ok found
  obtain ⟨_, _, s, types, same, stated, fits, made⟩ := Operator.inferFeaturesGradient_eq_ok.mp typed
  cases types
  rw [stated] at features
  obtain ⟨s', shaped, same'⟩ := Result.bind_eq_ok.mp features
  cases same'
  refine ⟨s, Value.shape_ints_eq_ok.mp shaped, same, ?_, made.symm⟩
  rw [ConvolutionAttributes.shape, Value.pair_ofPair padding, Value.pair_ofPair stride] at fits
  exact fits

theorem Built.featuresGradient_returns [Memory] (built : w.Built ShapeRules.Lasting) (own : y ∈ w.graph.nodes)
    (own' : f ∈ w.graph.nodes) (slides : Kind.Slides c) {s : Shape} (typed : f.elementType = y.elementType)
    (fits : c.shape s f.shape = .ok y.shape) :
    ∃ n v, Building.apply .featuresGradient [y, f]
      (entry "features_shape" (.ints (s.map Int.ofNat)) :: (Kind.window c).entries) w = .ok n v := by
  have means := Kind.means_featuresGradient (x := y.type) (y := f.type) slides (Value.lists_ints _) typed fits
  obtain ⟨n, v, ran, _⟩ := built.forms [y, f] (by simp [own, own']) means
  exact ⟨n, v, ran⟩

/-- Features and filters of a workspace, and a window that slides forward. -/
structure Slidable (w : Workspace) (y f : Node) (padding stride : Value) (p s : Int × Int) : Prop where
  features : y ∈ w.graph.nodes
  filters : f ∈ w.graph.nodes
  margins : padding.NamesPair p
  steps : stride.NamesPair s
  below : 0 ≤ p.1 ∧ 0 ≤ p.2
  forward : 1 ≤ s.1 ∧ 1 ≤ s.2

section slidable
open Building (convolutionTranspose)
variable [Memory] {padding stride : Value} {p s : Int × Int}
    {batch outputs height width outputs' channels rows columns : Nat}

/-- The shape of a transposed convolution that returns. -/
theorem Slidable.transposed (slidable : w.Slidable y f padding stride p s) (built : w.Built ShapeRules.Lasting)
    (turned : y.shape = [batch, outputs, height, width]) (kernel : f.shape = [outputs', channels, rows, columns])
    (ran : convolutionTranspose (.node y) (.node f) padding stride w = .ok n v) :
    f.elementType = y.elementType ∧ outputs = outputs' ∧ (1 ≤ height ∧ 1 ≤ width) ∧
      n.elementType = y.elementType ∧ ∃ tall wide : Nat, n.shape = [batch, channels, tall, wide] ∧
        (tall : Int) = spanned height rows p.1 s.1 ∧ (wide : Int) = spanned width columns p.2 s.2 := by
  obtain ⟨own, own', margins, steps, below, forward⟩ := slidable
  rw [Building.convolutionTranspose_eq turned kernel margins steps below forward] at ran
  have coherent := built.lasting
  obtain ⟨t, dims, typed, fits, made⟩ := coherent.featuresGradient_typed (c := ⟨p, s, none, none⟩) own own' ran
  -- the sizes asked for were accepted as a shape, so none of them is negative
  obtain ⟨_, _, tall, wide, rfl, first, second, high, long⟩ := Shape.four_dims dims.symm
  cases Int.ofNat.inj first
  cases Int.ofNat.inj second
  rw [turned, kernel, ConvolutionAttributes.shape_spanned ⟨below, forward⟩ high.symm long.symm] at fits
  refine ⟨typed, fits.1, fits.2, ?_, tall, wide, congrArg TensorType.shape made, high.symm, long.symm⟩
  rw [Node.elementType, made]

theorem Slidable.transposes (slidable : w.Slidable y f padding stride p s) (built : w.Built ShapeRules.Lasting)
    (turned : y.shape = [batch, outputs, height, width]) (kernel : f.shape = [outputs', channels, rows, columns]) :
    (∃ n v, convolutionTranspose (.node y) (.node f) padding stride w = .ok n v) ↔
      f.elementType = y.elementType ∧ outputs = outputs' ∧ (1 ≤ height ∧ 1 ≤ width) ∧
        0 ≤ spanned height rows p.1 s.1 ∧ 0 ≤ spanned width columns p.2 s.2 := by
  constructor
  · rintro ⟨n, v, ran⟩
    obtain ⟨typed, same, places, _, tall, wide, _, high, long⟩ := slidable.transposed built turned kernel ran
    exact ⟨typed, same, places, high ▸ Int.natCast_nonneg tall, long ▸ Int.natCast_nonneg wide⟩
  · rintro ⟨typed, same, places, high, long⟩
    obtain ⟨own, own', margins, steps, below, forward⟩ := slidable
    have above := Int.toNat_of_nonneg high
    have beside := Int.toNat_of_nonneg long
    let c : ConvolutionAttributes := ⟨p, s, none, none⟩
    have slides : Kind.Slides c := ⟨below, forward⟩
    let dims : Shape := [batch, channels, (spanned height rows p.1 s.1).toNat, (spanned width columns p.2 s.2).toNat]
    have fits : c.shape dims f.shape = .ok y.shape := by
      rw [turned, kernel]
      exact (ConvolutionAttributes.shape_spanned slides above beside).mpr ⟨same, places⟩
    obtain ⟨n, v, ran⟩ := built.featuresGradient_returns own own' slides typed fits
    refine ⟨n, v, ?_⟩
    rw [Building.convolutionTranspose_eq turned kernel margins steps below forward, ← above, ← beside]
    exact ran

theorem Slidable.convolution_shape (slidable : w.Slidable y f padding stride p s) (built : w.Built ShapeRules.Lasting)
    (turned : y.shape = [batch, outputs, height, width]) (kernel : f.shape = [outputs', channels, rows, columns])
    (ran : convolutionTranspose (.node y) (.node f) padding stride w = .ok n v) :
    Value.convolutionShape (.tuple n.shape.wholes) (.tuple f.shape.wholes) (.ofPair p) (.ofPair s) =
      .ok (y.shape.map Int.ofNat) := by
  obtain ⟨_, rfl, places, _, tall, wide, shape, high, long⟩ := slidable.transposed built turned kernel ran
  rw [shape, kernel, turned, Value.convolutionShape_eq rfl rfl slidable.forward,
    convolutionShape_eq_ok slidable.forward, high, long]
  refine ⟨rfl, (spanned_fits slidable.forward.1).mpr places.1, (spanned_fits slidable.forward.2).mpr places.2, ?_⟩
  rw [spanned_slid slidable.forward.1, spanned_slid slidable.forward.2]
  rfl

/-- The sizes of a convolution, from those of its features and filters. -/
theorem Built.convolution_sizes (built : w.Built ShapeRules.Lasting) (own : y ∈ w.graph.nodes)
    (convolves : y.ConvolutionOf x f p s) : Kind.Slides ⟨p, s, none, none⟩ ∧
      ∃ batch channels height width outputs rows columns down right : Nat, x.shape = [batch, channels, height, width] ∧
        f.shape = [outputs, channels, rows, columns] ∧ y.shape = [batch, outputs, down, right] ∧
          (down : Int) = (height + 2 * p.1 - rows).fdiv s.1 + 1 ∧
            (right : Int) = (width + 2 * p.2 - columns).fdiv s.2 + 1 := by
  obtain ⟨op, kind, formed⟩ := built.formed y own .convolution convolves.named
  obtain ⟨c, rfl⟩ : ∃ c, op = .convolution c := by
    cases op with
    | convolution c => exact ⟨c, rfl⟩
    | _ => cases kind
  have convolved := formed.convolution
  have margins : c.padding = p :=
    Param.ofPair_injective (Except.ok.inj (convolved.padding.symm.trans convolves.padding))
  have steps : c.stride = s :=
    Param.ofPair_injective (Except.ok.inj (convolved.stride.symm.trans convolves.stride))
  subst margins steps
  refine ⟨⟨convolved.slides.margins, convolved.slides.steps⟩, ?_⟩
  have typed := formed.typed
  rw [convolves.inputs] at typed
  obtain ⟨_, _, _, types, _, fits, made⟩ := Operator.inferConvolution_eq_ok.mp typed
  cases types
  obtain ⟨batch, channels, height, width, outputs, rows, columns, down, right, first, second, third⟩ :=
    ConvolutionAttributes.shape_eq_ok fits
  refine ⟨batch, channels, height, width, outputs, rows, columns, down, right, first, second,
    (congrArg TensorType.shape made).symm.trans third, ?_⟩
  rw [first, second, third, ConvolutionAttributes.shape_iff convolved.slides] at fits
  simpa using fits.2.2.2

/-- Behind a convolution the features' sizes come back, less what the last step of a window leaves over. -/
theorem Slidable.restores (slidable : w.Slidable y f padding stride p s) (built : w.Built ShapeRules.Lasting)
    (convolves : y.ConvolutionOf x f p s)
    (ran : Building.convolutionTranspose (.node y) (.node f) padding stride w = .ok n v) :
    ∃ batch channels height width outputs rows columns : Nat, x.shape = [batch, channels, height, width] ∧
      f.shape = [outputs, channels, rows, columns] ∧
        n.shape.map Int.ofNat = [(batch : Int), (channels : Int), height - (height + 2 * p.1 - rows) % s.1,
          width - (width + 2 * p.2 - columns) % s.2] ∧
          (n.shape = x.shape ↔ s.1 ∣ height + 2 * p.1 - rows ∧ s.2 ∣ width + 2 * p.2 - columns) := by
  obtain ⟨_, batch, channels, height, width, outputs, rows, columns, down, right, features, kernel, turned, high,
    long⟩ := built.convolution_sizes slidable.features convolves
  obtain ⟨_, _, _, _, tall, wide, shape, above, beside⟩ := slidable.transposed built turned kernel ran
  rw [spanned_of_slid slidable.forward.1 high] at above
  rw [spanned_of_slid slidable.forward.2 long] at beside
  refine ⟨batch, channels, height, width, outputs, rows, columns, features, kernel, ?_, ?_⟩
  · rw [shape, ← above, ← beside]
    rfl
  · rw [shape, features, Int.dvd_iff_emod_eq_zero, Int.dvd_iff_emod_eq_zero]
    simp only [List.cons.injEq, and_true, true_and]
    omega

/-- Transposed convolutions undo the arithmetic of shapes. One returns where element types and outputs agree, the
windows have places on both axes and the sizes that they span are sizes; a convolution of it has the shape that was
transposed. What a convolution slid over comes back less what its last steps leave over, so all of it does where the
strides divide. -/
theorem Built.transposed_convolution (built : w.Built ShapeRules.Lasting) :
    (∀ (y f : Node) (padding stride : Value) (p s : Int × Int)
      (batch outputs height width outputs' channels rows columns : Nat), w.Slidable y f padding stride p s →
        y.shape = [batch, outputs, height, width] → f.shape = [outputs', channels, rows, columns] →
          ((∃ n v, convolutionTranspose (.node y) (.node f) padding stride w = .ok n v) ↔
            f.elementType = y.elementType ∧ outputs = outputs' ∧ (1 ≤ height ∧ 1 ≤ width) ∧
              0 ≤ spanned height rows p.1 s.1 ∧ 0 ≤ spanned width columns p.2 s.2) ∧
          ∀ n v, convolutionTranspose (.node y) (.node f) padding stride w = .ok n v →
            n.elementType = y.elementType ∧ n.shape.map Int.ofNat =
              [(batch : Int), (channels : Int), spanned height rows p.1 s.1, spanned width columns p.2 s.2] ∧
            Value.convolutionShape (.tuple n.shape.wholes) (.tuple f.shape.wholes) (.ofPair p) (.ofPair s) =
              .ok (y.shape.map Int.ofNat)) ∧
      ∀ (x y f : Node) (padding stride : Value) (p s : Int × Int) (n : Node) (v : Workspace), y ∈ w.graph.nodes →
        y.ConvolutionOf x f p s → padding.NamesPair p → stride.NamesPair s →
          convolutionTranspose (.node y) (.node f) padding stride w = .ok n v →
            ∃ batch channels height width outputs rows columns : Nat, x.shape = [batch, channels, height, width] ∧
              f.shape = [outputs, channels, rows, columns] ∧
              n.shape.map Int.ofNat = [(batch : Int), (channels : Int), height - (height + 2 * p.1 - rows) % s.1,
                width - (width + 2 * p.2 - columns) % s.2] ∧
              (n.shape = x.shape ↔ s.1 ∣ height + 2 * p.1 - rows ∧ s.2 ∣ width + 2 * p.2 - columns) := by
  constructor
  · intro y f padding stride p s batch outputs height width outputs' channels rows columns slidable turned kernel
    refine ⟨slidable.transposes built turned kernel, fun n v ran => ?_⟩
    obtain ⟨_, _, _, typed, tall, wide, shape, high, long⟩ := slidable.transposed built turned kernel ran
    refine ⟨typed, ?_, slidable.convolution_shape built turned kernel ran⟩
    rw [shape, ← high, ← long]
    rfl
  · intro x y f padding stride p s n v own convolves margins steps ran
    have coherent := built.lasting
    have own' : f ∈ w.graph.nodes := (coherent.inputs y own f (by simp [convolves.inputs])).1
    obtain ⟨⟨below, forward⟩, _⟩ := built.convolution_sizes own convolves
    exact Slidable.restores ⟨own, own', margins, steps, below, forward⟩ built convolves ran

end slidable
end Workspace

/-! Pairs of rows and of columns over six rows and five columns, a margin above and below, two by two. -/
namespace Sample
open Building (entry convolutionTranspose)

def gridFeatures : Node := ⟨⟨0, 0⟩, "placeholder", [], [], ⟨.float32, [2, 3, 6, 5]⟩, none⟩
def gridFilters : Node := ⟨⟨0, 1⟩, "placeholder", [], [], ⟨.float32, [4, 3, 2, 2]⟩, none⟩
def gridConvolution : Node :=
  ⟨⟨0, 2⟩, "convolution", [gridFeatures, gridFilters], [("padding", .ofPair (1, 0)), ("stride", .ofPair (2, 2))],
    ⟨.float32, [2, 4, 4, 2]⟩, none⟩

def gridWorkspaceOf (nodes : Array Node) (memo : List (MemoKey × Node)) : Workspace :=
  ⟨.standard, ⟨0, .null, nodes, memo⟩, .empty⟩

def gridWorkspace : Workspace :=
  gridWorkspaceOf #[gridFeatures, gridFilters, gridConvolution]
    [(.interior "convolution" [0, 1] [("padding", .ofPair (1, 0)), ("stride", .ofPair (2, 2))], gridConvolution)]

theorem gridWorkspace_built : gridWorkspace.Built ShapeRules.Lasting := by
  have first : Building.placeholder (.dims [2, 3, 6, 5]) (.elementType .float32) ⟨.standard, .empty 0 .null, .empty⟩ =
      .ok gridFeatures (gridWorkspaceOf #[gridFeatures] []) := rfl
  have second : Building.placeholder (.dims [4, 3, 2, 2]) (.elementType .float32) (gridWorkspaceOf #[gridFeatures] []) =
      .ok gridFilters (gridWorkspaceOf #[gridFeatures, gridFilters] []) := rfl
  have third : Building.call "convolution" [.node gridFeatures, .node gridFilters]
      (.dictionary [entry "padding" (.ofPair (1, 0)), entry "stride" (.int 2)])
        (gridWorkspaceOf #[gridFeatures, gridFilters] []) = .ok gridConvolution gridWorkspace := rfl
  exact ((Workspace.built_empty.placeholder first).placeholder second).call (by simp [gridWorkspaceOf]) third

theorem transposed_convolution_grid :
    gridWorkspace.Slidable gridConvolution gridFilters (.ofPair (1, 0)) (.int 2) (1, 0) (2, 2) ∧
    gridConvolution.ConvolutionOf gridFeatures gridFilters (1, 0) (2, 2) ∧
      ∃ n v, convolutionTranspose (.node gridConvolution) (.node gridFilters) (.ofPair (1, 0))
        (.int 2) gridWorkspace = .ok n v ∧ n.elementType = .float32 ∧ n.shape.map Int.ofNat = [2, 3, 6, 4] ∧
        Value.convolutionShape (.tuple n.shape.wholes) (.tuple gridFilters.shape.wholes) (.ofPair (1, 0))
          (.ofPair (2, 2)) = .ok [2, 4, 4, 2] ∧ n.shape ≠ gridFeatures.shape := by
  have margins : (Value.ofPair (1, 0)).NamesPair (1, 0) := .inr ⟨rfl, _, _, rfl, rfl, rfl⟩
  have steps : (Value.int 2).NamesPair (2, 2) := .inl ⟨rfl, rfl⟩
  have slidable : gridWorkspace.Slidable gridConvolution gridFilters (.ofPair (1, 0)) (.int 2) (1, 0) (2, 2) :=
    ⟨by simp [gridWorkspace, gridWorkspaceOf], by simp [gridWorkspace, gridWorkspaceOf], margins, steps,
      by decide, by decide⟩
  have convolves : gridConvolution.ConvolutionOf gridFeatures gridFilters (1, 0) (2, 2) := ⟨rfl, rfl, rfl, rfl⟩
  obtain ⟨forth, back⟩ := gridWorkspace_built.transposed_convolution
  obtain ⟨returns, results⟩ := forth gridConvolution gridFilters _ _ _ _ 2 4 4 2 4 3 2 2 slidable rfl rfl
  obtain ⟨n, v, ran⟩ := returns.mpr (by decide)
  obtain ⟨typed, sized, again⟩ := results n v ran
  obtain ⟨_, _, _, _, _, _, _, features, kernel, _, whole⟩ :=
    back gridFeatures gridConvolution gridFilters _ _ _ _ n v slidable.features convolves margins steps ran
  cases features
  cases kernel
  exact ⟨slidable, convolves, n, v, ran, typed, sized, again, fun same => absurd (whole.mp same) (by decide)⟩

end Sample
end TensorDag
