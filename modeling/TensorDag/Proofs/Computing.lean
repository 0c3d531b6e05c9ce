import TensorDag.Proofs.Evaluation
import TensorDag.Proofs.Operable
import TensorDag.Proofs.Reading
import TensorDag.Proofs.Windows

/-!
Kernels that return. From tensors of the types of its inputs the host computes every node that its operator is
defined on and that has room, empty axes or not; the result has the shape of the node and is stored in any buffer
of its size.
-/
namespace TensorDag
open Result (bind_eq_ok)

namespace Operator
variable {α : Type} {a : Tensor α}

theorem notEmptyAlong_eq {axes : List Nat} (some : Shape.volume (Shape.select a.shape axes) ≠ 0) :
    notEmptyAlong axes a = .ok a :=
  if_neg some

theorem fourAxes_eq {batch channels height width : Nat} (shape : a.shape = [batch, channels, height, width]) :
    fourAxes a = .ok a :=
  if_pos (by rw [shape]; rfl)

end Operator

theorem Tensor.maximum_shape {α : Type} [Element α] (axes : List Nat) (a : Tensor α) :
    (a.maximum axes).shape = Shape.keep a.shape axes := by
  unfold Tensor.maximum
  split
  · rename_i none
    rw [none, Shape.keep_eq, Shape.keepFrom_self (by simp)]
  · rfl

/-- Tensors are given for the inputs of a node. -/
structure Node.Supplied {α : Type} (n : Node) (arg : Nat → Result (Tensor α)) (args : List (Tensor α)) : Prop where
  shapes : args.map Tensor.shape = n.inputs.map Node.shape
  given : ∀ (place : Nat) (t : Tensor α), args[place]? = some t → arg place = .ok t

namespace Node.Supplied
variable {α : Type} {n : Node} {arg : Nat → Result (Tensor α)} {args : List (Tensor α)}

theorem input {x : Node} {place : Nat} (supplied : n.Supplied arg args) (here : n.inputs[place]? = some x) :
    ∃ a, arg place = .ok a ∧ a.shape = x.shape := by
  have known : (args.map Tensor.shape)[place]? = some x.shape := by
    rw [supplied.shapes, List.getElem?_map, here]
    rfl
  rw [List.getElem?_map, Option.map_eq_some_iff] at known
  obtain ⟨a, listed, same⟩ := known
  exact ⟨a, supplied.given place a listed, same⟩

theorem pair {t u : TensorType} (supplied : n.Supplied arg args) (types : n.inputs.map Node.type = [t, u]) :
    ∃ a b, args = [a, b] ∧ arg 0 = .ok a ∧ arg 1 = .ok b ∧ a.shape = t.shape ∧ b.shape = u.shape := by
  obtain ⟨x, y, two, rfl, rfl⟩ := Gradient.inputs_two types
  have shapes := supplied.shapes
  rw [two] at shapes
  obtain ⟨a, _, rfl, left, rest⟩ := List.map_eq_cons_iff.mp shapes
  obtain ⟨b, _, rfl, right, none⟩ := List.map_eq_cons_iff.mp rest
  cases List.map_eq_nil_iff.mp none
  exact ⟨a, b, rfl, supplied.given 0 a rfl, supplied.given 1 b rfl, left, right⟩

theorem pool {dims : Int × Int} (supplied : n.Supplied arg args) (formed : n.Formed (.maxpool dims)) :
    ∃ (x : Node) (a : Tensor α) (batch channels height width down right : Nat), x ∈ n.inputs ∧ arg 0 = .ok a ∧
      a.shape = x.shape ∧ x.shape = [batch, channels, height, width] ∧ dims = (↑down, ↑right) ∧
      n.shape = [batch, channels, height / down, width / right] ∧
      Tiles down right (height / down) (width / right) height width := by
  obtain ⟨_, s, types, fits, typed⟩ := Operator.inferMaxpool_eq_ok.mp formed.typed
  obtain ⟨x, only, rfl⟩ := Gradient.inputs_one types
  obtain ⟨a, first, shape⟩ := supplied.input (show n.inputs[0]? = some x by rw [only]; rfl)
  obtain ⟨batch, channels, height, width, down, right, rfl, features, pooled, tiles⟩ :=
    pooledShape_eq_ok formed.maxpool.windows fits
  exact ⟨x, a, batch, channels, height, width, down, right, by simp [only], first, shape, features, rfl,
    (Node.shape_eq typed.symm).trans pooled, tiles⟩

/-- The gradient that the gradient of a pool is given, one cell for each window, and the features. -/
theorem poolGradient {dims : Int × Int} (supplied : n.Supplied arg args)
    (formed : n.Formed (.maxpoolGradient dims)) :
    ∃ (x : Node) (g a : Tensor α) (batch channels height width down right : Nat), x ∈ n.inputs ∧ arg 0 = .ok g ∧
      arg 2 = .ok a ∧ a.shape = x.shape ∧ x.shape = [batch, channels, height, width] ∧ dims = (↑down, ↑right) ∧
      n.shape = x.shape ∧ g.shape = [batch, channels, height / down, width / right] ∧
      Tiles down right (height / down) (width / right) height width := by
  obtain ⟨_, _, types, _, _, fits, pooled⟩ := Operator.inferMaxpoolGradient_eq_ok.mp formed.typed
  obtain ⟨y, _, x, three, rfl, rfl, typed⟩ := Gradient.inputs_three types
  rw [← typed] at fits
  obtain ⟨g, first, size⟩ := supplied.input (show n.inputs[0]? = some y by rw [three]; rfl)
  obtain ⟨a, third, shape⟩ := supplied.input (show n.inputs[2]? = some x by rw [three]; rfl)
  obtain ⟨batch, channels, height, width, down, right, rfl, features, rest, tiles⟩ :=
    pooledShape_eq_ok formed.maxpoolGradient.windows fits
  exact ⟨x, g, a, batch, channels, height, width, down, right, by simp [three], first, third, shape, features, rfl,
    (Node.shape_eq typed).symm, size.trans (pooled.trans rest), tiles⟩

theorem argmin {axis : Nat} (supplied : n.Supplied arg args) (formed : n.Formed (.argmin axis))
    (admits : (Operator.argmin axis).Admits (n.inputs.map Node.type)) :
    ∃ a, arg 0 = .ok a ∧ Operator.notEmptyAlong [axis] a = .ok a ∧ axis < a.shape.length ∧
      n.shape = Shape.replace a.shape axis 1 := by
  obtain ⟨_, types, inside, typed⟩ := Operator.inferArgmin_eq_ok.mp formed.typed
  obtain ⟨x, only, rfl⟩ := Gradient.inputs_one types
  obtain ⟨a, first, shape⟩ := supplied.input (show n.inputs[0]? = some x by rw [only]; rfl)
  rw [types] at admits
  refine ⟨a, first, Operator.notEmptyAlong_eq (by rw [shape]; exact admits), by rw [shape]; exact inside, ?_⟩
  rw [shape]
  exact Node.shape_eq typed.symm

end Node.Supplied

/-! Margins that can be counted. -/

namespace Node.Formed
variable {n : Node} {c : ConvolutionAttributes}

theorem convolution_fits [Memory] (formed : n.Formed (.convolution c))
    (afforded : (Operator.convolution c).afford (n.inputs.map Node.type) n.shape = .ok ()) :
    Operator.windowFits c = true := by
  obtain ⟨x, y, s, types, typed, slid, made⟩ := Operator.inferConvolution_eq_ok.mp formed.typed
  obtain ⟨_, _, _, _, _, _, _, _, _, four, _, _⟩ := ConvolutionAttributes.shape_eq_ok slid
  rw [types, show n.shape = s from (congrArg TensorType.shape made).symm,
    ConvolutionAttributes.afford_convolution typed slid] at afforded
  exact Operator.windowFits_of_framed formed.convolution.slides four afforded.1

theorem featuresGradient_fits [Memory] (formed : n.Formed (.featuresGradient c))
    (afforded : (Operator.featuresGradient c).afford (n.inputs.map Node.type) n.shape = .ok ()) :
    Operator.windowFits c = true := by
  obtain ⟨x, y, s, types, typed, stated, slid, made⟩ := Operator.inferFeaturesGradient_eq_ok.mp formed.typed
  obtain ⟨_, _, _, _, _, _, _, _, _, four, _, _⟩ := ConvolutionAttributes.shape_eq_ok slid
  rw [types, show n.shape = s from (congrArg TensorType.shape made).symm,
    ConvolutionAttributes.afford_featuresGradient typed stated slid] at afforded
  exact Operator.windowFits_of_framed formed.featuresGradient.slides four afforded.1

theorem filtersGradient_fits [Memory] (formed : n.Formed (.filtersGradient c))
    (afforded : (Operator.filtersGradient c).afford (n.inputs.map Node.type) n.shape = .ok ()) :
    Operator.windowFits c = true := by
  obtain ⟨x, y, s, types, typed, _, slid, made⟩ := Operator.inferFiltersGradient_eq_ok.mp formed.typed
  obtain ⟨_, _, _, _, _, _, _, _, _, four, _, _⟩ := ConvolutionAttributes.shape_eq_ok slid
  rw [types, show n.shape = s from (congrArg TensorType.shape made).symm,
    ConvolutionAttributes.afford_filtersGradient typed] at afforded
  exact Operator.windowFits_of_framed formed.filtersGradient.slides four afforded.1

end Node.Formed

namespace Node.Formed
variable {α : Type} [Element α] {n : Node} {op : Operator} {args : List (Tensor α)} {arg : Nat → Result (Tensor α)}

/-- Axes of a reduction are in order, and windows of pools are of one cell or more. -/
theorem fits [Memory] (formed : n.Formed op) (padded : op.kind = .pad →
    (Kind.source (n.inputs.map Node.type)).shape ≠ [])
    (afforded : op.kind ∈ Kind.sliding → op.afford (n.inputs.map Node.type) n.shape = .ok ()) :
    op.fits (n.inputs.map Node.type) n.type = true := by
  obtain ⟨es, spelled⟩ := formed.spelled
  have reduced : ∀ axes : List Nat, axes.Pairwise (· < ·) →
      (∀ k ∈ axes, k < (Kind.source (n.inputs.map Node.type)).rank) →
        (decide (axes.Pairwise (· < ·)) && axes.all (· < (Kind.source (n.inputs.map Node.type)).rank)) = true := by
    intro axes sorted inside
    rw [Bool.and_eq_true, decide_eq_true_eq, List.all_eq_true]
    exact ⟨sorted, fun k member => decide_eq_true (inside k member)⟩
  unfold Operator.fits
  rw [Bool.and_eq_true]
  refine ⟨?_, by rw [formed.typed]; exact decide_eq_true rfl⟩
  cases op with
  | sum axes | maxElement axes =>
    obtain ⟨axes', found, made⟩ := bind_eq_ok.mp spelled
    cases made
    obtain ⟨sorted, inside⟩ := Kind.spellAxes_sorted found
    exact reduced axes sorted inside
  | pad before after =>
    obtain ⟨t, types, ⟨sizes, _⟩, _⟩ := Operator.inferPad_eq_ok.mp formed.typed
    have axes : t.shape ≠ [] := by
      rw [types] at padded
      exact padded rfl
    have some : before ≠ [] := by
      rintro rfl
      exact axes (List.eq_nil_of_length_eq_zero sizes.symm)
    simpa using some
  | convolution => exact formed.convolution_fits (afforded (by simp [Kind.sliding, Operator.kind]))
  | featuresGradient => exact formed.featuresGradient_fits (afforded (by simp [Kind.sliding, Operator.kind]))
  | filtersGradient => exact formed.filtersGradient_fits (afforded (by simp [Kind.sliding, Operator.kind]))
  | maxpool dims =>
    obtain ⟨_, first, second⟩ := formed.maxpool
    simp [first, second]
  | maxpoolGradient dims =>
    obtain ⟨_, first, second⟩ := formed.maxpoolGradient
    simp [first, second]
  | _ => rfl

/-- A polynomial operator has its tensor as a result, unless it is a gradient of softmax without axes. -/
theorem compute_tensor (formed : n.Formed op) (held : n.shape.Holdable) (polynomial : op.kind ∈ Kind.polynomial)
    (axes : op.kind = .softmaxGradient → n.shape ≠ []) (supplied : n.Supplied arg args) :
    op.compute n.shape arg = .ok (.of (op.tensor n.shape args)) ∧ (op.tensor n.shape args).shape = n.shape := by
  have shaped : op.Shaped (args.map Tensor.shape) n.shape := supplied.shapes ▸ formed.shaped polynomial
  have countable : op.kind = .repeated → ∀ a ∈ args, Shape.broadcast? a.shape n.shape = some n.shape := by
    intro repeated a member
    cases op with
    | repeated count =>
      obtain ⟨_, types, _, typed⟩ := Operator.inferRepeated_eq_ok.mp formed.typed
      obtain ⟨x, inputs, rfl⟩ := Gradient.inputs_one types
      have known := List.mem_map_of_mem (f := Tensor.shape) member
      rw [supplied.shapes, inputs, List.map_singleton, List.mem_singleton] at known
      have widened : n.shape = count.toNat :: a.shape := by
        rw [known]
        exact Node.shape_eq typed.symm
      have stretches := Shape.Stretches.cons count.toNat a.shape
      rw [← widened] at stretches
      exact (stretches.broadcast?_holdable held).2
    | _ => cases repeated
  refine ⟨?_, Operator.tensor_shape shaped polynomial⟩
  unfold Operator.compute
  rw [Operator.polynomial?_eq shaped polynomial axes countable supplied.given]
  rfl

/-- The gradient of softmax has a result, also where it has no axis to add up along. -/
theorem compute_softmaxGradient (formed : n.Formed .softmaxGradient) (held : n.shape.Holdable)
    (supplied : n.Supplied arg args) :
    ∃ c, Operator.softmaxGradient.compute n.shape arg = .ok c ∧ ∀ e, (c e).shape = n.shape := by
  by_cases axes : n.shape = []
  · have types := Operator.inferSoftmaxGradient_eq_ok.mp formed.typed
    obtain ⟨x, y, both, first, second⟩ := Gradient.inputs_two types
    obtain ⟨g, given, shape⟩ := supplied.input (show n.inputs[0]? = some x by rw [both]; rfl)
    obtain ⟨z, given', shape'⟩ := supplied.input (show n.inputs[1]? = some y by rw [both]; rfl)
    have left : g.shape = [] := shape.trans ((Node.shape_eq first).trans axes)
    have right : z.shape = [] := shape'.trans ((Node.shape_eq second).trans axes)
    have stretched : ∀ (f : α → α → α) {a b : Tensor α}, a.shape = [] → b.shape = [] →
        Operator.stretched f a b = .ok (Tensor.zipWith f [] a b) := by
      intro f a b none none'
      rw [Operator.stretched, none, none']
      rfl
    let weighted := Tensor.zipWith (· * ·) [] g z
    let rest := Tensor.zipWith (· - ·) [] g weighted.lastTotal
    have total : weighted.lastTotal.shape = [] := rfl
    have shape'' : rest.shape = [] := rfl
    have found : Operator.softmaxGradientOf g z = .ok (Tensor.zipWith (· * ·) [] z rest) :=
      bind_eq_ok.mpr ⟨weighted, stretched _ left right, bind_eq_ok.mpr ⟨rest, stretched _ left total,
        stretched _ right shape''⟩⟩
    have alone : ¬(g.shape = z.shape ∧ z.shape ≠ []) := fun both => both.2 right
    refine ⟨.of (Tensor.zipWith (· * ·) [] z rest), ?_, fun e => axes.symm⟩
    simp only [Operator.compute, Operator.polynomial?, given, given', bind, Except.bind, if_neg alone, found]
    rfl
  · obtain ⟨computed, shape⟩ := formed.compute_tensor held (by decide) (fun _ => axes) supplied
    exact ⟨_, computed, fun _ => shape⟩

theorem compute_binary {op : BinaryKind} (formed : n.Formed (.binary op))
    (other : (Operator.binary op).kind ∉ Kind.polynomial) (supplied : n.Supplied arg args) :
    ∃ c, (Operator.binary op).compute n.shape arg = .ok c ∧ ∀ e, (c e).shape = n.shape := by
  obtain ⟨_, _, s, types, _, common, typed⟩ := Operator.inferBinary_eq_ok.mp formed.typed
  obtain ⟨x, y, both, rfl, rfl⟩ := Gradient.inputs_two types
  obtain ⟨a, first, shape⟩ := supplied.input (show n.inputs[0]? = some x by rw [both]; rfl)
  obtain ⟨b, second, shape'⟩ := supplied.input (show n.inputs[1]? = some y by rw [both]; rfl)
  have stretches : Shape.broadcast? a.shape b.shape = some s := by
    rw [shape, shape']
    exact Operator.common_eq_ok common
  have made : Operator.stretched op.apply a b = .ok (Tensor.zipWith op.apply s a b) := by
    rw [Operator.stretched, stretches]
  refine ⟨.of (Tensor.zipWith op.apply s a b), ?_, fun e => (Node.shape_eq typed.symm).symm⟩
  cases op with
  | add | sub | mul => exact absurd (by decide) other
  | _ => exact bind_eq_ok.mpr ⟨a, first, bind_eq_ok.mpr ⟨b, second, bind_eq_ok.mpr ⟨_, made, rfl⟩⟩⟩

theorem compute_maxElement {axes : List Nat} (formed : n.Formed (.maxElement axes))
    (admits : (Operator.maxElement axes).Admits (n.inputs.map Node.type)) (supplied : n.Supplied arg args) :
    ∃ c, (Operator.maxElement axes).compute n.shape arg = .ok c ∧ ∀ e, (c e).shape = n.shape := by
  obtain ⟨_, types, typed⟩ := Operator.inferReduction_eq_ok.mp formed.typed
  obtain ⟨x, only, rfl⟩ := Gradient.inputs_one types
  obtain ⟨a, first, shape⟩ := supplied.input (show n.inputs[0]? = some x by rw [only]; rfl)
  have some : Shape.volume (Shape.select a.shape axes) ≠ 0 := by
    rw [types] at admits
    rw [shape]
    exact admits
  refine ⟨.of (a.maximum axes), bind_eq_ok.mpr ⟨a, ?_, rfl⟩, fun e => (Tensor.maximum_shape axes a).trans ?_⟩
  · exact bind_eq_ok.mpr ⟨a, first, Operator.notEmptyAlong_eq some⟩
  · rw [shape]
    exact (Node.shape_eq typed.symm).symm

/-- An operator has a result of the shape of its node. -/
theorem compute_returns (formed : n.Formed op) (held : n.shape.Holdable)
    (admits : op.Admits (n.inputs.map Node.type)) (sampling : op.kind ≠ .uniform) (supplied : n.Supplied arg args) :
    ∃ c, op.compute n.shape arg = .ok c ∧ ∀ e, (c e).shape = n.shape := by
  by_cases polynomial : op.kind ∈ Kind.polynomial
  · by_cases softmax : op.kind = .softmaxGradient
    · cases op with
      | softmaxGradient => exact formed.compute_softmaxGradient held supplied
      | _ => cases softmax
    · obtain ⟨computed, shape⟩ := formed.compute_tensor held polynomial (fun same => absurd same softmax) supplied
      exact ⟨_, computed, fun _ => shape⟩
  have one : ∀ {x : Node}, n.inputs = [x] → ∃ a, arg 0 = .ok a ∧ a.shape = x.shape :=
    fun only => supplied.input (by rw [only]; rfl)
  cases op with
  | binary op => exact formed.compute_binary polynomial supplied
  | unary op =>
    obtain ⟨x, only, same⟩ := Gradient.inputs_one (Operator.inferUnary_eq_ok.mp formed.typed)
    obtain ⟨a, first, shape⟩ := one only
    refine ⟨.of (a.map op.apply), ?_, fun e => shape.trans (congrArg TensorType.shape same)⟩
    cases op with
    | neg => exact absurd (by decide) polynomial
    | _ => exact bind_eq_ok.mpr ⟨a, first, rfl⟩
  | maxElement axes => exact formed.compute_maxElement admits supplied
  | argmin axis =>
    obtain ⟨a, first, some, _, shape⟩ := supplied.argmin formed admits
    exact ⟨.of ((a.argmin axis).map fun place => Int32.ofNat place),
      bind_eq_ok.mpr ⟨a, bind_eq_ok.mpr ⟨a, first, some⟩, rfl⟩, fun e => shape.symm⟩
  | maxpool dims =>
    obtain ⟨x, a, _, _, _, _, down, right, _, first, shape, features, rfl, pooled, _⟩ := supplied.pool formed
    have features := shape.trans features
    refine ⟨.of (a.maxpool (down, right)), bind_eq_ok.mpr ⟨a, bind_eq_ok.mpr ⟨a, first, ?_⟩, rfl⟩, fun e => ?_⟩
    · exact Operator.fourAxes_eq features
    · show (a.maxpool (down, right)).shape = n.shape
      rw [pooled, Tensor.maxpool, features]
      rfl
  | maxpoolGradient dims =>
    obtain ⟨x, g, a, _, _, _, _, down, right, _, first, third, shape, features, rfl, whole, _, _⟩ :=
      supplied.poolGradient formed
    refine ⟨.of (Tensor.maxpoolGradient (down, right) g a), bind_eq_ok.mpr ⟨g, first, bind_eq_ok.mpr ⟨a, ?_, rfl⟩⟩,
      fun e => shape.trans whole.symm⟩
    exact bind_eq_ok.mpr ⟨a, third, Operator.fourAxes_eq (shape.trans features)⟩
  | softmax =>
    obtain ⟨types, _, _⟩ := Operator.inferSoftmax_eq_ok.mp formed.typed
    obtain ⟨x, only, same⟩ := Gradient.inputs_one types
    obtain ⟨a, first, shape⟩ := one only
    have shape : a.shape = n.shape := shape.trans (congrArg TensorType.shape same)
    refine ⟨.of a.softmax, bind_eq_ok.mpr ⟨a, first, bind_eq_ok.mpr ⟨a, ?_, rfl⟩⟩, fun e => shape⟩
    rw [types] at admits
    refine Operator.notEmptyAlong_eq ?_
    rw [shape]
    exact admits
  | uniform => exact absurd rfl sampling
  | _ => exact absurd (by simp [Kind.polynomial, Operator.kind]) polynomial

/-- Whole elements are computed like all others; only exponentials leave them before the end. -/
theorem computeWhole_returns {args : List (Tensor Int32)} {arg : Nat → Result (Tensor Int32)} (formed : n.Formed op)
    (held : n.shape.Holdable) (admits : op.Admits (n.inputs.map Node.type)) (sampling : op.kind ≠ .uniform)
    (supplied : n.Supplied arg args) : ∃ c, op.computeWhole n.shape arg = .ok c ∧ ∀ e, (c e).shape = n.shape := by
  cases op with
  | softmax =>
    obtain ⟨types, _, _⟩ := Operator.inferSoftmax_eq_ok.mp formed.typed
    obtain ⟨x, only, same⟩ := Gradient.inputs_one types
    obtain ⟨a, first, shape⟩ := supplied.input (show n.inputs[0]? = some x by rw [only]; rfl)
    have shape : a.shape = n.shape := shape.trans (congrArg TensorType.shape same)
    refine ⟨.of (a.belowPeak.map Double.ofInt32).scaledExp, bind_eq_ok.mpr ⟨a, first, bind_eq_ok.mpr ⟨a, ?_, rfl⟩⟩,
      fun e => shape⟩
    rw [types] at admits
    refine Operator.notEmptyAlong_eq ?_
    rw [shape]
    exact admits
  | _ => exact formed.compute_returns held admits sampling supplied

end Node.Formed

/-- Bytes of the sizes of the inputs of a node are tensors of their types. -/
theorem Node.supplied_argument {α : Type} [Element α] {n : Node} {args : List Bytes}
    (held : ∀ x ∈ n.inputs, x.shape.Holdable)
    (sizes : List.Forall₂ (fun x bytes => bytes.size = x.byteSize) n.inputs args) :
    ∃ tensors : List (Tensor α), n.Supplied (argument n.inputs args) tensors := by
  let read (x : Node) (bytes : Bytes) : Tensor α := (Tensor.ofBytes x.shape bytes).map (Element.ofWord x.elementType)
  refine ⟨List.zipWith read n.inputs args, ?_, fun place t here => ?_⟩
  · have lengths := sizes.length_eq
    exact List.ext_getElem (by simp [lengths]) fun i _ _ => by simp [read, Tensor.map, Tensor.ofBytes]
  · obtain ⟨x, bytes, listed, given, same⟩ := List.getElem?_zipWith_eq_some.mp here
    obtain ⟨inside, at_input⟩ := List.getElem?_eq_some_iff.mp listed
    obtain ⟨inside', at_arg⟩ := List.getElem?_eq_some_iff.mp given
    have size : bytes.size = x.byteSize := by
      have pair := sizes.get inside inside'
      rwa [List.get_eq_getElem, List.get_eq_getElem, at_input, at_arg] at pair
    have holdable := Shape.holdable_iff.mpr (held x (List.mem_of_getElem? listed))
    simp only [argument, given, listed, if_neg (not_not_intro size), if_pos holdable]
    exact congrArg Except.ok same

theorem Operator.runAt_eq_ok [Memory] {α : Type} {n : Node}
    {run : Operator → Shape → (Nat → Result (Tensor α)) → Result Computed} {op : Operator} {shape : Shape}
    {arg : Nat → Result (Tensor α)} {c : Computed} :
    runAt n run op shape arg = .ok c ↔
      run op shape arg = .ok c ∧ op.afford (n.inputs.map Node.type) (c n.elementType).shape = .ok () := by
  constructor
  · intro found
    obtain ⟨_, ran, found⟩ := bind_eq_ok.mp found
    obtain ⟨_, afforded, made⟩ := bind_eq_ok.mp found
    cases made
    exact ⟨ran, afforded⟩
  · rintro ⟨ran, afforded⟩
    exact bind_eq_ok.mpr ⟨c, ran, bind_eq_ok.mpr ⟨(), afforded, rfl⟩⟩

namespace Node.Formed
variable [Memory] {n : Node} {op : Operator} {args : List Bytes}

theorem computedWith_eq {α : Type} (formed : n.Formed op) (suited : op.Suited (n.inputs.map Node.type) n.shape)
    (arg : Nat → Result (Tensor α)) (run : Operator → Shape → (Nat → Result (Tensor α)) → Result Computed) :
    op.kind.computedWith n arg run = run op n.shape arg := by
  simp only [Kind.computedWith, formed.attributes, if_pos (formed.fits suited.admits.padded suited.afforded)]

theorem computedWith_runAt {α : Type} {arg : Nat → Result (Tensor α)}
    {run : Operator → Shape → (Nat → Result (Tensor α)) → Result Computed} {c : Computed} (formed : n.Formed op)
    (admits : op.Admits (n.inputs.map Node.type)) (afforded : op.afford (n.inputs.map Node.type) n.shape = .ok ())
    (ran : run op n.shape arg = .ok c) (shape : ∀ e, (c e).shape = n.shape) :
    op.kind.computedWith n arg (Operator.runAt n run) = .ok c := by
  rw [formed.computedWith_eq ⟨admits, fun _ => afforded⟩]
  exact Operator.runAt_eq_ok.mpr ⟨ran, (shape n.elementType).symm ▸ afforded⟩

theorem run_of_computedWith {α : Type} {arg : Nat → Result (Tensor α)}
    {run : Operator → Shape → (Nat → Result (Tensor α)) → Result Computed} {c : Computed} (formed : n.Formed op)
    (suited : op.Suited (n.inputs.map Node.type) n.shape)
    (found : op.kind.computedWith n arg (Operator.runAt n run) = .ok c) : run op n.shape arg = .ok c := by
  rw [formed.computedWith_eq suited] at found
  exact (Operator.runAt_eq_ok.mp found).1

/-- The host runs the operator that is read over a ring: whenever its kernel of a polynomial kind returns, it is with
the tensor of the operator over machine numbers. -/
theorem computedWith_polynomial {α : Type} [Element α] {args : List (Tensor α)} {arg : Nat → Result (Tensor α)}
    {c : Computed} (formed : n.Formed op) (suited : op.Suited (n.inputs.map Node.type) n.shape)
    (polynomial : op.kind ∈ Kind.polynomial) (axes : op.kind = .softmaxGradient → n.shape ≠ [])
    (supplied : n.Supplied arg args)
    (computed : op.kind.computedWith n arg (Operator.runAt n Operator.compute) = .ok c) :
    c = .of (op.tensor n.shape args) := by
  have shaped : op.Shaped (args.map Tensor.shape) n.shape := supplied.shapes ▸ formed.shaped polynomial
  have ran := formed.run_of_computedWith suited computed
  simp only [Operator.compute] at ran
  by_cases countable : op.kind = .repeated → ∀ a ∈ args, Shape.broadcast? a.shape n.shape = some n.shape
  · rw [Operator.polynomial?_eq shaped polynomial axes countable supplied.given] at ran
    exact (Except.ok.inj ran).symm
  · -- a repetition with more cells than can be counted is refused
    rw [Classical.not_imp] at countable
    obtain ⟨repeated, large⟩ := countable
    cases op with
    | repeated count =>
      rcases args with _ | ⟨a, _ | ⟨_, _⟩⟩
      · exact shaped.elim
      · have refused : ¬Shape.broadcast? a.shape n.shape = some n.shape := fun fine => large (by simpa using fine)
        simp only [Operator.polynomial?, supplied.given 0 a rfl, bind, Except.bind, if_neg refused] at ran
        cases ran
      · exact shaped.elim
    | _ => cases repeated

theorem computed_returns (formed : n.Formed op) (admits : op.Admits (n.inputs.map Node.type))
    (afforded : op.afford (n.inputs.map Node.type) n.shape = .ok ())
    (inputs : ∀ x ∈ n.inputs, x.shape.Holdable) (held : n.shape.Holdable) (sampling : op.kind ≠ .uniform)
    (sizes : List.Forall₂ (fun x bytes => bytes.size = x.byteSize) n.inputs args) :
    ∃ c, op.kind.computed n args = .ok c ∧ ∀ e, (c e).shape = n.shape := by
  unfold Kind.computed
  split
  · obtain ⟨tensors, supplied⟩ := Node.supplied_argument (α := Int32) inputs sizes
    obtain ⟨c, ran, shape⟩ := formed.computeWhole_returns held admits sampling supplied
    exact ⟨c, formed.computedWith_runAt admits afforded ran shape, shape⟩
  · obtain ⟨tensors, supplied⟩ := Node.supplied_argument (α := Single) inputs sizes
    obtain ⟨c, ran, shape⟩ := formed.compute_returns held admits sampling supplied
    exact ⟨c, formed.computedWith_runAt admits afforded ran shape, shape⟩
  · obtain ⟨tensors, supplied⟩ := Node.supplied_argument (α := Double) inputs sizes
    obtain ⟨c, ran, shape⟩ := formed.compute_returns held admits sampling supplied
    exact ⟨c, formed.computedWith_runAt admits afforded ran shape, shape⟩

end Node.Formed

theorem Computed.storeIn_eq {c : Computed} {type : TensorType} {output : Buffer} (shape : ∀ e, (c e).shape = type.shape)
    (held : type.shape.Holdable) (size : output.size = type.byteSize) (writable : output.readonly = false) :
    c.storeIn type output = .ok (c type.elementType).bytes := by
  rw [Computed.storeIn, Buffer.accept, if_neg (not_not_intro size), writable, if_neg Bool.false_ne_true,
    if_pos (Shape.holdable_iff.mpr held), Computed.store, if_pos (.inl (shape _)), Tensor.fit, if_pos (shape _)]

/-- The seed of a node of samples. -/
theorem Node.Formed.seeded {n : Node} {s : Shape} {seed : Nat} (formed : n.Formed (.uniform s seed)) :
    (n.params.get "seed" >>= Param.seed) = .ok (Random.seedWords seed) := by
  obtain ⟨_, _, attributes⟩ := bind_eq_ok.mp formed.attributes
  obtain ⟨_, needed, same⟩ := bind_eq_ok.mp attributes
  cases same
  obtain ⟨p, got, read⟩ := Params.get_of_need needed
  obtain ⟨i, whole, natural⟩ := Option.bind_eq_some_iff.mp read
  have number : p = .int i := by
    unfold Param.int? at whole
    split at whole <;> cases whole
    rfl
  have front : 0 ≤ i := by
    by_contra negative
    rw [if_neg negative] at natural
    cases natural
  rw [if_pos front] at natural
  cases natural
  exact bind_eq_ok.mpr ⟨p, got, number ▸ if_neg (Int.not_lt.mpr front)⟩

theorem Streams.find_returns {n : Node} {s : Shape} {seed : Nat} (formed : n.Formed (.uniform s seed))
    (streams : Streams) : ∃ stream, streams.find n = .ok stream := by
  obtain ⟨p, got, seeded⟩ := bind_eq_ok.mp formed.seeded
  unfold Streams.find
  split
  · exact ⟨_, rfl⟩
  · exact ⟨_, bind_eq_ok.mpr ⟨p, got, bind_eq_ok.mpr ⟨_, seeded, rfl⟩⟩⟩

/-- What the host's kernel of a kind computes at a node, before it is stored. -/
def Kind.result [Memory] (kind : Kind) (n : Node) (args : List Bytes) (streams : Streams) : Result Computed :=
  if kind = .uniform then (streams.draw n).map Prod.fst else kind.computed n args

theorem Kernel.run_result [Memory] (kind : Kind) (n : Node) (args : List Bytes) (output : Buffer) (streams : Streams) :
    ((Kernel.host kind).run n args output streams).1 =
      (kind.result n args streams >>= fun c => c.storeIn n.type output).map some := by
  by_cases sampling : kind = .uniform
  · subst sampling
    simp only [Kernel.run, Kind.result, if_pos]
    cases streams.draw n <;> rfl
  · simp only [Kernel.run, Kind.result, if_neg sampling]

namespace Node.Formed
variable {n : Node} {op : Operator} {args : List Bytes} {output : Buffer}

/-- What the kernel of a node computes is there and has the shape of the node. -/
theorem result_returns [Memory] (formed : n.Formed op) (admits : op.Admits (n.inputs.map Node.type))
    (afforded : op.afford (n.inputs.map Node.type) n.shape = .ok ()) (held : n.shape.Holdable)
    (inputs : ∀ x ∈ n.inputs, x.shape.Holdable)
    (sizes : List.Forall₂ (fun x bytes => bytes.size = x.byteSize) n.inputs args) (streams : Streams) :
    ∃ c, op.kind.result n args streams = .ok c ∧ ∀ e, (c e).shape = n.shape := by
  by_cases sampling : op.kind = .uniform
  · cases op with
    | uniform s seed =>
      obtain ⟨stream, found⟩ := Streams.find_returns formed streams
      have room : n.shape.room 8 = .ok () := (Operator.afford_eq_ok.mp afforded).2 _ (List.mem_singleton.mpr rfl)
      refine ⟨sampled n.shape (stream.samples n.type.volume).1, ?_, fun _ => rfl⟩
      simp only [Kind.result, if_pos sampling, Streams.draw, found, room]
      rfl
    | _ => cases sampling
  · obtain ⟨c, computed, shape⟩ := formed.computed_returns admits afforded inputs held sampling sizes
    exact ⟨c, by rw [Kind.result, if_neg sampling, computed], shape⟩

theorem maxpoolGradient_demands {batch channels height width down right : Nat}
    (formed : n.Formed (.maxpoolGradient (↑down, ↑right))) (features : n.shape = [batch, channels, height, width]) :
    (Operator.maxpoolGradient (↑down, ↑right)).ownDemands (n.inputs.map Node.type) n.shape =
      [.array 8 [down * right], .array 8 [batch, channels, height / down, width / right]] := by
  obtain ⟨_, _, types, _⟩ := Operator.inferMaxpoolGradient_eq_ok.mp formed.typed
  rw [types]
  simp only [Operator.ownDemands, List.map_cons, List.map_nil, show n.type.shape = _ from features]
  rfl

/-- What operators ask for on their way can be had where all shapes are within the limits. -/
theorem afforded [Memory] (formed : n.Formed op) (suited : op.Suited (n.inputs.map Node.type) n.shape)
    (limited : n.shape.Limited) (inputs : ∀ x ∈ n.inputs, x.shape.Limited) :
    op.afford (n.inputs.map Node.type) n.shape = .ok () := by
  by_cases sliding : op.kind ∈ Kind.sliding
  · exact suited.afforded sliding
  refine Operator.afford_eq_ok.mpr ⟨fun _ => limited.room_doubles, ?_⟩
  have shapes : ∀ s ∈ (n.inputs.map Node.type).map TensorType.shape, s.room 8 = .ok () := by
    simp only [List.map_map, List.forall_mem_map]
    exact fun x member => (inputs x member).room_doubles
  cases op with
  | convolution | featuresGradient | filtersGradient => exact absurd (by simp [Kind.sliding, Operator.kind]) sliding
  | argmin | uniform => exact List.forall_mem_singleton.mpr limited.room_doubles
  | matmul =>
    simp only [Operator.ownDemands]
    split
    · exact List.forall_mem_map.mpr shapes
    · simp
  | binary op =>
    cases op with
    | pow =>
      obtain ⟨_, _, _, types, _⟩ := Operator.inferBinary_eq_ok.mp formed.typed
      rw [types] at shapes ⊢
      simp only [Operator.ownDemands, List.map_cons]
      split
      · exact List.forall_mem_singleton.mpr (shapes _ (by simp))
      · simp
    | _ => exact List.forall_mem_nil _
  | maxpoolGradient dims =>
    obtain ⟨_, _, types, _, _, fits, pooled⟩ := Operator.inferMaxpoolGradient_eq_ok.mp formed.typed
    obtain ⟨y, _, x, three, rfl, rfl, typed⟩ := Gradient.inputs_three types
    rw [← typed] at fits
    obtain ⟨batch, channels, height, width, down, right, rfl, features, rest, tiles⟩ :=
      pooledShape_eq_ok formed.maxpoolGradient.windows fits
    have within : Shape.Limited [batch, channels, height, width] := features ▸ inputs x (by simp [three])
    have gradient : Shape.room [batch, channels, height / down, width / right] 8 = .ok () :=
      (pooled.trans rest) ▸ (inputs y (by simp [three])).room_doubles
    rw [formed.maxpoolGradient_demands ((Node.shape_eq typed).symm.trans features)]
    exact List.forall_mem_cons.mpr ⟨(tiles.places_limited within).room_doubles, List.forall_mem_singleton.mpr gradient⟩
  | _ => exact List.forall_mem_nil _

theorem run_returns [Memory] (formed : n.Formed op) (suited : op.Suited (n.inputs.map Node.type) n.shape)
    (limited : n.shape.Limited) (inputs : ∀ x ∈ n.inputs, x.shape.Limited)
    (sizes : List.Forall₂ (fun x bytes => bytes.size = x.byteSize) n.inputs args)
    (size : output.size = n.byteSize) (writable : output.readonly = false) (streams : Streams) :
    ∃ bytes, ((Kernel.host op.kind).run n args output streams).1 = .ok (some bytes) := by
  obtain ⟨c, computed, shape⟩ := formed.result_returns suited.admits (formed.afforded suited limited inputs)
    limited.holdable (fun x input => (inputs x input).holdable) sizes streams
  refine ⟨(c n.elementType).bytes, ?_⟩
  rw [Kernel.run_result, computed]
  exact congrArg (Except.map some) (Computed.storeIn_eq shape limited.holdable size writable)

end Node.Formed
end TensorDag
