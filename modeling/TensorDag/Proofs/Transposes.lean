import Mathlib
import TensorDag.Proofs.Refusing
import TensorDag.Proofs.Unsliding
import TensorDag.Proofs.Words

/-!
Convolutions of whole elements. A convolution and its two gradients are transposes of one another, also where sums
overflow, and wherever there is room for what their kernels ask for on the way.
-/
namespace TensorDag

attribute [local instance] Int32.ring

namespace Kind
open Building (Window entry)
variable {c : ConvolutionAttributes} {window : Window} {x y : TensorType} {s : Shape}

/-- The margins and strides of a window, numbers or pairs of them. -/
structure Names (window : Window) (c : ConvolutionAttributes) : Prop extends Slides c where
  padding : window.padding.NamesPair c.padding
  stride : window.stride.NamesPair c.stride

namespace Names

theorem spell (names : Names window c) (name : String) {es : Entries} {features filters : Option Shape}
    (padding : es.getD "padding" (.int 0) = window.padding) (stride : es.getD "stride" (.int 1) = window.stride)
    (first : spellShape? es "features_shape" = .ok features) (second : spellShape? es "filters_shape" = .ok filters) :
    spellConvolution name es = .ok ⟨c.padding, c.stride, features, filters⟩ := by
  have margins := Value.pair_names names.padding name "padding" 0
  have steps := Value.pair_names names.stride name "stride" 1
  rw [if_neg (by have := names.margins; omega), ← padding] at margins
  rw [if_neg (by have := names.steps; omega), ← stride] at steps
  exact Result.bind_eq_ok.mpr ⟨_, margins, Result.bind_eq_ok.mpr ⟨_, steps, Result.bind_eq_ok.mpr ⟨_, first,
    Result.bind_eq_ok.mpr ⟨_, second, rfl⟩⟩⟩⟩

theorem means_convolution (names : Names window c) (typed : y.elementType = x.elementType)
    (slid : c.shape x.shape y.shape = .ok s) :
    Kind.convolution.Means [x, y] window.entries (.convolution ⟨c.padding, c.stride, none, none⟩)
      ⟨x.elementType, s⟩ :=
  means_of_spell 2 rfl rfl (Result.bind_eq_ok.mpr ⟨_, names.spell _ rfl rfl rfl rfl, rfl⟩)
    (Operator.inferConvolution_eq_ok.mpr ⟨x, y, s, rfl, typed, slid, rfl⟩)

theorem means_featuresGradient (names : Names window c) (typed : y.elementType = x.elementType)
    (slid : c.shape s y.shape = .ok x.shape) :
    Kind.featuresGradient.Means [x, y] (entry "features_shape" (.dims s) :: window.entries)
      (.featuresGradient ⟨c.padding, c.stride, some s, none⟩) ⟨x.elementType, s⟩ :=
  means_of_spell 2 rfl rfl
    (Result.bind_eq_ok.mpr ⟨_, names.spell _ rfl rfl (spellShape?_dims rfl) rfl, rfl⟩)
    ((Operator.inferFeaturesGradient_eq_ok (c := ⟨c.padding, c.stride, some s, none⟩)).mpr
      ⟨x, y, s, rfl, typed, rfl, slid, rfl⟩)

theorem means_filtersGradient (names : Names window c) (typed : y.elementType = x.elementType)
    (slid : c.shape y.shape s = .ok x.shape) :
    Kind.filtersGradient.Means [x, y] (entry "filters_shape" (.dims s) :: window.entries)
      (.filtersGradient ⟨c.padding, c.stride, none, some s⟩) ⟨x.elementType, s⟩ :=
  means_of_spell 2 rfl rfl
    (Result.bind_eq_ok.mpr ⟨_, names.spell _ rfl rfl rfl (spellShape?_dims rfl), rfl⟩)
    ((Operator.inferFiltersGradient_eq_ok (c := ⟨c.padding, c.stride, none, some s⟩)).mpr
      ⟨x, y, s, rfl, typed, rfl, slid, rfl⟩)

end Names
end Kind

section pairings
open Tensor (dot)
variable {c : ConvolutionAttributes} {x f g y dx df : Tensor Int32}

theorem Int32.paired_convolution (convolved : y.Same (Tensor.convolution c.windowing g.shape x f)) :
    paired y g ≡ (dot g (Tensor.convolution c.windowing g.shape x f)).toInt [ZMOD 2 ^ 32] := by
  have same : dot g y = dot g (Tensor.convolution c.windowing g.shape x f) :=
    Tensor.dot_same (.refl _) convolved convolved.shape.symm
  exact same ▸ (toInt_dot y g).symm

theorem Int32.paired_featuresGradient (slides : Kind.Slides c) (slid : c.shape x.shape f.shape = .ok g.shape)
    (spread : dx.Same (Tensor.featuresGradient c.windowing x.shape g f)) :
    paired x dx ≡ (dot g (Tensor.convolution c.windowing g.shape x f)).toInt [ZMOD 2 ^ 32] := by
  obtain ⟨_, _, _, _, _, _, _, _, _, features, kernel, result⟩ := ConvolutionAttributes.shape_eq_ok slid
  obtain ⟨down, right⟩ := slides.windowing
  have same : dot dx x = dot g (Tensor.convolution c.windowing g.shape x f) :=
    (Tensor.dot_same spread (.refl x) spread.shape).trans
      (Tensor.dot_convolution_features c.windowing down right features kernel result).symm
  exact same ▸ (toInt_dot x dx).symm

theorem Int32.paired_filtersGradient (slid : c.shape x.shape f.shape = .ok g.shape)
    (gathered : df.Same (Tensor.filtersGradient c.windowing f.shape g x)) :
    paired f df ≡ (dot g (Tensor.convolution c.windowing g.shape x f)).toInt [ZMOD 2 ^ 32] := by
  obtain ⟨_, _, _, _, _, _, _, _, _, _, kernel, result⟩ := ConvolutionAttributes.shape_eq_ok slid
  have same : dot df f = dot g (Tensor.convolution c.windowing g.shape x f) :=
    (Tensor.dot_same gathered (.refl f) gathered.shape).trans
      (Tensor.dot_convolution_filters c.windowing kernel result).symm
  exact same ▸ (toInt_dot f df).symm

end pairings

/-- Windows are spacious where a convolution and its two gradients are afforded all that they ask for. -/
theorem ConvolutionAttributes.spacious_iff [Memory] {c : ConvolutionAttributes} {x f g : TensorType}
    (typed : x.elementType = g.elementType) (typed' : f.elementType = g.elementType)
    (slid : c.shape x.shape f.shape = .ok g.shape) : c.Spacious x.shape f.shape g.shape ↔
      (Operator.convolution ⟨c.padding, c.stride, none, none⟩).afford [x, f] g.shape = .ok () ∧
      (Operator.featuresGradient ⟨c.padding, c.stride, some x.shape, none⟩).afford [g, f] x.shape = .ok () ∧
      (Operator.filtersGradient ⟨c.padding, c.stride, none, some f.shape⟩).afford [g, x] f.shape = .ok () := by
  rw [afford_convolution (c := ⟨c.padding, c.stride, none, none⟩) (typed'.trans typed.symm) slid,
    afford_featuresGradient (c := ⟨c.padding, c.stride, some x.shape, none⟩) typed' rfl slid,
    afford_filtersGradient typed]
  exact ⟨fun ⟨framed, windows, products, spread, gathered⟩ =>
      ⟨⟨framed, windows, products⟩, ⟨framed, spread⟩, framed, windows, gathered⟩,
    fun ⟨⟨framed, windows, products⟩, ⟨_, spread⟩, _, _, gathered⟩ =>
      ⟨framed, windows, products, spread, gathered⟩⟩

namespace Node
open Tensor (whole)
variable {leaf : Node → Result Bytes} {n x y : Node} {op : Operator} {args : List Bytes} {bytes a b : Bytes}

theorem Formed.suited_of_evaluate [Memory] (formed : n.Formed op) (value : n.evaluate leaf = .ok bytes) :
    op.Suited (n.inputs.map Node.type) n.shape := by
  rw [evaluate_interior formed.isLeaf] at value
  obtain ⟨args, _, value⟩ := Result.bind_eq_ok.mp value
  obtain ⟨_, found, value⟩ := Result.bind_eq_ok.mp value
  cases (formed.named ▸ find_host op.kind).symm.trans found
  obtain ⟨_, _, value⟩ := Result.bind_eq_ok.mp value
  obtain ⟨_, ran, _⟩ := Result.bind_eq_ok.mp value
  exact formed.suited_of_run ran

/-- A convolution of whole elements, or one of its gradients, evaluates just where what it asks for can be had, and
then to the tensor of its operator. -/
theorem Formed.evaluates_sliding [Memory] (formed : n.Formed op) (sliding : op.kind ∈ Kind.sliding)
    (inputs : n.inputs = [x, y])
    (fits : n.type.Fits) (int : n.elementType = .int32) (first : Given leaf x a) (second : Given leaf y b) :
    ((∃ bytes, n.evaluate leaf = .ok bytes) ↔ op.afford [x.type, y.type] n.shape = .ok ()) ∧
      ∀ bytes, n.evaluate leaf = .ok bytes →
        (whole n.shape bytes).Same (op.tensor n.shape [whole x.shape a, whole y.shape b]) := by
  have polynomial : ∀ kind ∈ Kind.sliding, kind ∈ Kind.polynomial ∧ kind ≠ .softmaxGradient := by decide
  have types : n.inputs.map Node.type = [x.type, y.type] := by rw [inputs]; rfl
  have given : List.Forall₂ (Given leaf) n.inputs [a, b] := by
    rw [inputs]
    exact .cons first (.cons second .nil)
  have admits : op.Admits (n.inputs.map Node.type) := by
    cases op with
    | convolution | featuresGradient | filtersGradient => trivial
    | _ => simp [Kind.sliding, Operator.kind] at sliding
  have afforded : ∀ bytes, n.evaluate leaf = .ok bytes → op.afford [x.type, y.type] n.shape = .ok () :=
    fun bytes value => types ▸ (formed.suited_of_evaluate value).afforded sliding
  have holds : op.afford [x.type, y.type] n.shape = .ok () →
      n.Holds leaf (op.tensor n.shape [whole x.shape a, whole y.shape b]) := by
    intro afforded
    have holds := formed.holds_tensor int fits given (polynomial _ sliding).1 (polynomial _ sliding).2 admits
      (types ▸ afforded)
    rwa [inputs] at holds
  constructor
  · constructor
    · rintro ⟨bytes, value⟩
      exact afforded bytes value
    · intro met
      obtain ⟨bytes, evaluates, _⟩ := holds met
      exact ⟨bytes, evaluates.1⟩
  · intro bytes value
    obtain ⟨bytes', evaluates, same⟩ := holds (afforded bytes value)
    cases Except.ok.inj (value.symm.trans evaluates.1)
    exact same

end Node

namespace Workspace
open Building (Window convolution featuresGradient filtersGradient)
open Tensor (whole)
variable {w : Workspace} {x f g : Node} {window : Window} {c : ConvolutionAttributes}

/-- A convolution of whole elements and its two gradients, built for the same window. They all evaluate just where
there is room for the features with their margins and where all windows over these and all products can be counted.
They are transposes of one another: each of the three tensors, paired with what is computed of the two others, sums to
the same up to whole turns. -/
theorem Built.convolution_transposed [Memory] (built : w.Built ShapeRules.Lasting) (own : x ∈ w.graph.nodes)
    (own' : f ∈ w.graph.nodes) (own'' : g ∈ w.graph.nodes) (int : x.elementType = .int32)
    (int' : f.elementType = .int32) (int'' : g.elementType = .int32) (names : Kind.Names window c)
    (slid : c.shape x.shape f.shape = .ok g.shape) :
    ∃ y w₁ dx w₂ df w₃, convolution (.node x) (.node f) window w = .ok y w₁ ∧
      featuresGradient (.node g) (.node f) (.dims x.shape) window w₁ = .ok dx w₂ ∧
      filtersGradient (.node g) (.node x) (.dims f.shape) window w₂ = .ok df w₃ ∧
      y.type = g.type ∧ dx.type = x.type ∧ df.type = f.type ∧
      (x.type.Fits → f.type.Fits → g.type.Fits → ∀ leaf a b h,
        x.Evaluates leaf a → f.Evaluates leaf b → g.Evaluates leaf h →
          ((∃ p q r, y.evaluate leaf = .ok p ∧ dx.evaluate leaf = .ok q ∧ df.evaluate leaf = .ok r) ↔
            c.Spacious x.shape f.shape g.shape) ∧
          (∀ p q, y.evaluate leaf = .ok p → dx.evaluate leaf = .ok q →
            Int32.paired (whole y.shape p) (whole g.shape h) ≡
              Int32.paired (whole x.shape a) (whole dx.shape q) [ZMOD 2 ^ 32]) ∧
          (∀ p r, y.evaluate leaf = .ok p → df.evaluate leaf = .ok r →
            Int32.paired (whole y.shape p) (whole g.shape h) ≡
              Int32.paired (whole f.shape b) (whole df.shape r) [ZMOD 2 ^ 32]) ∧
          ∀ q r, dx.evaluate leaf = .ok q → df.evaluate leaf = .ok r →
            Int32.paired (whole x.shape a) (whole dx.shape q) ≡
              Int32.paired (whole f.shape b) (whole df.shape r) [ZMOD 2 ^ 32]) := by
  have same : f.type.elementType = x.type.elementType := int'.trans int.symm
  have same' : f.type.elementType = g.type.elementType := int'.trans int''.symm
  have same'' : x.type.elementType = g.type.elementType := int.trans int''.symm
  obtain ⟨y, w₁, ran, forth⟩ := built.forms [x, f] (by simp [own, own'])
    (names.means_convolution (x := x.type) (y := f.type) same slid)
  obtain ⟨dx, w₂, ran', back⟩ := forth.built.forms [g, f]
    (by simp [forth.keeps.mem own'', forth.keeps.mem own'])
    (names.means_featuresGradient (x := g.type) (y := f.type) (s := x.shape) same' slid)
  obtain ⟨df, w₃, ran'', across⟩ := back.built.forms [g, x]
    (by simp [back.keeps.mem (forth.keeps.mem own''), back.keeps.mem (forth.keeps.mem own)])
    (names.means_filtersGradient (x := g.type) (y := x.type) (s := f.shape) same'' slid)
  have typed : y.type = g.type := forth.typed.trans (congrArg (TensorType.mk · g.shape) same'')
  have typed' : dx.type = x.type := back.typed.trans (congrArg (TensorType.mk · x.shape) same''.symm)
  have typed'' : df.type = f.type := across.typed.trans (congrArg (TensorType.mk · f.shape) same'.symm)
  refine ⟨y, w₁, dx, w₂, df, w₃, ran, ran', ran'', typed, typed', typed'', ?_⟩
  intro fits fits' fits'' leaf a b h at_x at_f at_g
  have given : Node.Given leaf x a := ⟨at_x, int, fits.holdable⟩
  have given' : Node.Given leaf f b := ⟨at_f, int', fits'.holdable⟩
  have given'' : Node.Given leaf g h := ⟨at_g, int'', fits''.holdable⟩
  have listed : Kind.convolution ∈ Kind.sliding ∧ Kind.featuresGradient ∈ Kind.sliding ∧
      Kind.filtersGradient ∈ Kind.sliding := by decide
  obtain ⟨returns, holds⟩ := forth.formed.evaluates_sliding listed.1 forth.inputs (typed ▸ fits'')
    ((Node.elementType_eq typed).trans int'') given given'
  obtain ⟨returns', holds'⟩ := back.formed.evaluates_sliding listed.2.1 back.inputs (typed' ▸ fits)
    ((Node.elementType_eq typed').trans int) given'' given'
  obtain ⟨returns'', holds''⟩ := across.formed.evaluates_sliding listed.2.2 across.inputs (typed'' ▸ fits')
    ((Node.elementType_eq typed'').trans int') given'' given
  have shape : y.shape = g.shape := congrArg TensorType.shape typed
  have shape' : dx.shape = x.shape := congrArg TensorType.shape typed'
  have shape'' : df.shape = f.shape := congrArg TensorType.shape typed''
  rw [shape] at returns
  rw [shape'] at returns'
  rw [shape''] at returns''
  have all := (and_congr returns (and_congr returns' returns'')).trans
    (ConvolutionAttributes.spacious_iff same'' same' slid).symm
  -- each of the three sums is the same number up to whole turns
  let sum : ℤ := (Tensor.dot (whole g.shape h)
    (Tensor.convolution c.windowing g.shape (whole x.shape a) (whole f.shape b))).toInt
  have first : ∀ p, y.evaluate leaf = .ok p →
      Int32.paired (whole y.shape p) (whole g.shape h) ≡ sum [ZMOD 2 ^ 32] := fun p value =>
    Int32.paired_convolution (c := c) ((holds p value).trans (by rw [shape]; exact .refl _))
  have second : ∀ q, dx.evaluate leaf = .ok q →
      Int32.paired (whole x.shape a) (whole dx.shape q) ≡ sum [ZMOD 2 ^ 32] := fun q value =>
    Int32.paired_featuresGradient (c := c) (g := whole g.shape h) (f := whole f.shape b) names.toSlides slid
      ((holds' q value).trans (by rw [shape']; exact .refl _))
  have third : ∀ r, df.evaluate leaf = .ok r →
      Int32.paired (whole f.shape b) (whole df.shape r) ≡ sum [ZMOD 2 ^ 32] := fun r value =>
    Int32.paired_filtersGradient (c := c) (g := whole g.shape h) (x := whole x.shape a) slid
      ((holds'' r value).trans (by rw [shape'']; exact .refl _))
  refine ⟨Iff.trans ?_ all, fun p q at_y at_dx => (first p at_y).trans (second q at_dx).symm,
    fun p r at_y at_df => (first p at_y).trans (third r at_df).symm,
    fun q r at_dx at_df => (second q at_dx).trans (third r at_df).symm⟩
  exact ⟨fun ⟨p, q, r, at_y, at_dx, at_df⟩ => ⟨⟨p, at_y⟩, ⟨q, at_dx⟩, r, at_df⟩,
    fun ⟨⟨p, at_y⟩, ⟨q, at_dx⟩, r, at_df⟩ => ⟨p, q, r, at_y, at_dx, at_df⟩⟩

end Workspace

namespace Sample
open Building (Window convolution featuresGradient filtersGradient)
open Tensor (whole)

/-! Features with margins above and below, of which the last column is in no window, and a pixel with margins that no
array has. -/

def uneven : ConvolutionAttributes := ⟨(1, 0), (2, 2), none, none⟩
def unevenWindow : Window := ⟨.ofPair (1, 0), .int 2⟩
def unevenFeatures : Node := ⟨⟨0, 0⟩, "placeholder", [], [], ⟨.int32, [1, 2, 4, 3]⟩, none⟩
def unevenFilters : Node := ⟨⟨0, 1⟩, "placeholder", [], [], ⟨.int32, [1, 2, 2, 2]⟩, none⟩
def unevenGradient : Node := ⟨⟨0, 2⟩, "placeholder", [], [], ⟨.int32, [1, 1, 3, 1]⟩, none⟩
def pixelOfInts : Node := ⟨⟨0, 3⟩, "placeholder", [], [], ⟨.int32, [1, 1, 1, 1]⟩, none⟩

def unevenWorkspace : Workspace :=
  ⟨.standard, ⟨0, .null, #[unevenFeatures, unevenFilters, unevenGradient, pixelOfInts], []⟩, .empty⟩

theorem unevenWorkspace_built : unevenWorkspace.Built ShapeRules.Lasting := by
  have first : Building.placeholder (.dims [1, 2, 4, 3]) (.elementType .int32) ⟨.standard, .empty 0 .null, .empty⟩ =
      .ok unevenFeatures ⟨.standard, ⟨0, .null, #[unevenFeatures], []⟩, .empty⟩ := rfl
  have second : Building.placeholder (.dims [1, 2, 2, 2]) (.elementType .int32)
      ⟨.standard, ⟨0, .null, #[unevenFeatures], []⟩, .empty⟩ =
        .ok unevenFilters ⟨.standard, ⟨0, .null, #[unevenFeatures, unevenFilters], []⟩, .empty⟩ := rfl
  have third : Building.placeholder (.dims [1, 1, 3, 1]) (.elementType .int32)
      ⟨.standard, ⟨0, .null, #[unevenFeatures, unevenFilters], []⟩, .empty⟩ =
        .ok unevenGradient ⟨.standard, ⟨0, .null, #[unevenFeatures, unevenFilters, unevenGradient], []⟩, .empty⟩ := rfl
  have fourth : Building.placeholder (.dims [1, 1, 1, 1]) (.elementType .int32)
      ⟨.standard, ⟨0, .null, #[unevenFeatures, unevenFilters, unevenGradient], []⟩, .empty⟩ =
        .ok pixelOfInts unevenWorkspace := rfl
  exact (((Workspace.built_empty.placeholder first).placeholder second).placeholder third).placeholder fourth

def wrappingTensor (shape : Shape) : Tensor Int32 :=
  ⟨shape, fun index => Int32.ofNat (2 ^ 30 * (1 + Shape.offset shape index))⟩

def wrappingLeaf (n : Node) : Result Bytes := .ok ((wrappingTensor n.shape).map Int32.toUInt32).bytes

theorem evaluates_wrapping {n : Node} (leaf : n.isLeaf = true) :
    n.Evaluates wrappingLeaf ((wrappingTensor n.shape).map Int32.toUInt32).bytes := by
  refine ⟨Node.evaluate_leaf leaf, ?_⟩
  rw [Tensor.size_bytes]
  exact Nat.mul_comm ..

theorem uneven_spacious : uneven.Spacious [1, 2, 4, 3] [1, 2, 2, 2] [1, 1, 3, 1] where
  framed := rfl
  windows := Shape.holdable_iff.mp (by decide)
  products := rfl
  spread := .inr (.inr rfl)
  gathered := rfl

theorem convolution_transposed_uneven :
    unevenWorkspace.Built ShapeRules.Lasting ∧ Kind.Names unevenWindow uneven ∧
      uneven.shape unevenFeatures.shape unevenFilters.shape = .ok unevenGradient.shape ∧
      ∃ y w₁ dx w₂ df w₃, convolution (.node unevenFeatures)
        (.node unevenFilters) unevenWindow unevenWorkspace = .ok y w₁ ∧
        featuresGradient (.node unevenGradient) (.node unevenFilters) (.dims [1, 2, 4, 3]) unevenWindow w₁ =
          .ok dx w₂ ∧
        filtersGradient (.node unevenGradient) (.node unevenFeatures) (.dims [1, 2, 2, 2]) unevenWindow w₂ =
          .ok df w₃ ∧
        ∃ p q r, y.evaluate wrappingLeaf = .ok p ∧ dx.evaluate wrappingLeaf = .ok q ∧
          df.evaluate wrappingLeaf = .ok r ∧
          Int32.paired (whole y.shape p) (whole [1, 1, 3, 1] ((wrappingTensor [1, 1, 3, 1]).map Int32.toUInt32).bytes) ≡
            Int32.paired (whole [1, 2, 4, 3] ((wrappingTensor [1, 2, 4, 3]).map Int32.toUInt32).bytes)
              (whole dx.shape q) [ZMOD 2 ^ 32] ∧
          Int32.paired (whole [1, 2, 4, 3] ((wrappingTensor [1, 2, 4, 3]).map Int32.toUInt32).bytes)
              (whole dx.shape q) ≡
            Int32.paired (whole [1, 2, 2, 2] ((wrappingTensor [1, 2, 2, 2]).map Int32.toUInt32).bytes)
              (whole df.shape r) [ZMOD 2 ^ 32] := by
  have names : Kind.Names unevenWindow uneven :=
    ⟨⟨by decide, by decide⟩, .inr ⟨rfl, _, _, rfl, rfl, rfl⟩, .inl ⟨rfl, rfl⟩⟩
  have fits : ∀ n ∈ [unevenFeatures, unevenFilters, unevenGradient], n.type.Fits := by
    simp only [List.forall_mem_cons]
    exact ⟨.of_room le_rfl rfl, .of_room le_rfl rfl, .of_room le_rfl rfl, nofun⟩
  obtain ⟨y, w₁, dx, w₂, df, w₃, ran, ran', ran'', _, _, _, pairs⟩ :=
    unevenWorkspace_built.convolution_transposed (x := unevenFeatures) (f := unevenFilters) (g := unevenGradient)
      (by simp [unevenWorkspace]) (by simp [unevenWorkspace]) (by simp [unevenWorkspace]) rfl rfl rfl names rfl
  obtain ⟨returns, transposes⟩ := pairs (fits _ (by simp)) (fits _ (by simp)) (fits _ (by simp)) wrappingLeaf _ _ _
    (evaluates_wrapping rfl) (evaluates_wrapping rfl) (evaluates_wrapping rfl)
  obtain ⟨p, q, r, at_y, at_dx, at_df⟩ := returns.mpr uneven_spacious
  exact ⟨unevenWorkspace_built, names, rfl, y, w₁, dx, w₂, df, w₃, ran, ran', ran'', p, q, r, at_y, at_dx, at_df,
    transposes.1 p q at_y at_dx, transposes.2.2 q r at_dx at_df⟩

/-- Margins that the rules accept and that no array has: the convolution is built, and does not evaluate. -/
theorem convolution_unframed :
    unevenWorkspace.Built ShapeRules.Lasting ∧ pixelOfInts ∈ unevenWorkspace.graph.nodes ∧
      Kind.Names ⟨.int (2 ^ 31), .int (2 ^ 40)⟩ vastMargins ∧
      vastMargins.shape pixelOfInts.shape pixelOfInts.shape = .ok pixelOfInts.shape ∧
      (∀ leaf : Node → Result Bytes, leaf pixelOfInts = .ok (Bytes.zeros 4) →
        pixelOfInts.Evaluates leaf (Bytes.zeros 4)) ∧
      ∃ y v, convolution (.node pixelOfInts) (.node pixelOfInts)
        ⟨.int (2 ^ 31), .int (2 ^ 40)⟩ unevenWorkspace = .ok y v ∧
        y.type = pixelOfInts.type ∧ y.evaluate (fun _ => .ok (Bytes.zeros 4)) = .fault .notAddressable := by
  refine ⟨unevenWorkspace_built, by simp [unevenWorkspace], ⟨⟨by decide, by decide⟩, .inl ⟨rfl, rfl⟩,
    .inl ⟨rfl, rfl⟩⟩, rfl, fun leaf value => ⟨(Node.evaluate_leaf rfl).trans value, rfl⟩, _, _, rfl, rfl, rfl⟩

end Sample
end TensorDag
