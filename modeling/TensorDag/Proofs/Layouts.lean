import Mathlib
import TensorDag.Proofs.Forming
import TensorDag.Proofs.Restoring
import TensorDag.Proofs.Wholes

/-!
Gradients of operations on axes. The rule of an operation that only moves, drops, repeats or adds up the cells of one
input answers a gradient with the transpose of the operation: whole elements that overflow included, the node paired
with the gradient sums to the same as its input paired with the answer.
-/
namespace TensorDag
open Program (bind_eq_ok pure_eq_ok)

attribute [local instance] Int32.ring

namespace Shape
variable {s t : Shape}

theorem Holdable.sublist (holdable : s.Holdable) (sub : t.Sublist s) : t.Holdable :=
  ⟨le_trans sub.length_le holdable.axes,
    lt_of_le_of_lt (Nat.mul_le_mul_left 4 (filled_sublist sub)) holdable.bytes⟩

end Shape

namespace TensorType.Fits
variable {type : TensorType}

theorem of_moderate [Memory] (moderate : type.shape.Moderate) : type.Fits :=
  ⟨moderate.holdable, Bytes.room_eq_ok.mp moderate.limited.byteSize_room⟩

theorem stretched [Memory] {other : TensorType} (fits : type.Fits) (positive : ∀ d ∈ type.shape, 1 ≤ d)
    (stretches : Shape.Stretches other.shape type.shape) : other.Fits := by
  refine ⟨⟨le_trans stretches.length_le fits.holdable.axes,
    lt_of_le_of_lt (Nat.mul_le_mul_left 4 stretches.volume_filled_le) fits.holdable.bytes⟩, ?_⟩
  have fewer := stretches.volume_filled_le
  rw [Shape.filled_of_positive positive, Shape.filled_of_positive (stretches.positive positive)] at fewer
  exact le_trans (Nat.mul_le_mul_right 4 fewer) fits.room

end TensorType.Fits

/-- The kinds that only move, drop, repeat or add up the cells of one input. -/
def Kind.layout : List Kind := [.reshape, .transpose, .slice, .pad, .repeated, .broadcast, .sum]

/-- An operator of a layout kind keeps the type of the elements. -/
theorem Operator.infer_layout {op : Operator} {t type : TensorType} (listed : op.kind ∈ Kind.layout)
    (inferred : op.infer [t] = .ok type) : type.elementType = t.elementType := by
  have kept : ∀ s, (⟨t.elementType, s⟩ : TensorType) = type → type.elementType = t.elementType := by
    rintro _ rfl
    rfl
  cases op with
  | sum =>
    obtain ⟨_, types, typed⟩ := inferReduction_eq_ok.mp inferred
    cases types
    exact kept _ typed
  | reshape =>
    obtain ⟨_, types, _, typed⟩ := inferReshape_eq_ok.mp inferred
    cases types
    exact kept _ typed
  | transpose =>
    obtain ⟨_, types, _, typed⟩ := inferTranspose_eq_ok.mp inferred
    cases types
    exact kept _ typed
  | slice =>
    obtain ⟨_, types, _, _, _, typed⟩ := inferSlice_eq_ok.mp inferred
    cases types
    exact kept _ typed
  | pad =>
    obtain ⟨_, types, _, _, typed⟩ := inferPad_eq_ok.mp inferred
    cases types
    exact kept _ typed
  | repeated =>
    obtain ⟨_, types, _, typed⟩ := inferRepeated_eq_ok.mp inferred
    cases types
    exact kept _ typed
  | broadcast =>
    obtain ⟨_, types, _, typed⟩ := inferBroadcast_eq_ok.mp inferred
    cases types
    exact kept _ typed
  | _ => simp [Kind.layout, Operator.kind] at listed

theorem Tensor.dot_broadcast {S : Type} [CommRing S] {u g a : Tensor S} (gathers : Gathers u g)
    (shape : u.shape = a.shape) : dot g (a.broadcast g.shape) = dot u a := by
  rw [dot, dot, ← shape, ← gathers.pairs, shape]
  rfl

namespace Gradient
open Node (Given)
open Tensor (dot whole)
variable [Memory] {w v : Workspace} {kind : Kind} {x y g d : Node} {op : Operator} {leaf : Node → Result Bytes}

/-- A node of a layout kind on an input of whole elements without empty axes, and a gradient of its type. Both the
node and its input are of types of which tensors can be had; what is summed can be stretched again. -/
structure LayoutGradient (w : Workspace) (kind : Kind) (x y g : Node) : Prop where
  layout : kind ∈ Kind.layout
  named : y.kind = kind.name
  inputs : y.inputs = [x]
  own : y ∈ w.graph.nodes
  gradient : g ∈ w.graph.nodes
  whole : y.elementType = .int32
  typed : g.type = y.type
  positive : ∀ d ∈ x.shape, 1 ≤ d
  axes : kind = .slice ∨ kind = .pad → x.shape ≠ []
  source : x.type.Fits
  result : y.type.Fits
  stretched : kind = .sum → x.shape.length ≤ Shape.maxStretched

/-- An answer to a gradient pairs with the input to what the gradient pairs with the node. -/
def Transposes (leaf : Node → Result Bytes) (x y g d : Node) : Prop :=
  ∀ a b, x.Evaluates leaf a → g.Evaluates leaf b → ∃ c e, y.Evaluates leaf c ∧ d.Evaluates leaf e ∧
    Int32.paired (whole y.shape c) (whole g.shape b) ≡ Int32.paired (whole x.shape a) (whole d.shape e) [ZMOD 2 ^ 32]

/-- The rule of a node answers a gradient with one node, of the type of the input. -/
def AnswersTransposed (w : Workspace) (x y g : Node) : Prop :=
  ∃ rule d v, Rules.standard.find y.kind = .ok rule ∧ rule.run y (.node g) w = .ok [some d] v ∧
    d ∈ v.graph.nodes ∧ d.type = x.type ∧ ∀ leaf, Transposes leaf x y g d

theorem transposes_of_dot {t u : Tensor Int32} {a b : Bytes} (values : y.Holds leaf t) (answers : d.Holds leaf u)
    (shape : g.shape = y.shape) (shape' : d.shape = x.shape)
    (same : dot (whole g.shape b) t = dot u (whole x.shape a)) :
    ∃ c e, y.Evaluates leaf c ∧ d.Evaluates leaf e ∧ Int32.paired (whole y.shape c) (whole g.shape b) ≡
      Int32.paired (whole x.shape a) (whole d.shape e) [ZMOD 2 ^ 32] := by
  obtain ⟨c, evaluates, held⟩ := values
  obtain ⟨e, evaluates', held'⟩ := answers
  refine ⟨c, e, evaluates, evaluates', Int32.paired_of_dot ?_⟩
  calc dot (whole g.shape b) (whole y.shape c) = dot (whole g.shape b) t := Tensor.dot_same (.refl _) held shape
    _ = dot u (whole x.shape a) := same
    _ = dot (whole d.shape e) (whole x.shape a) := (Tensor.dot_same held' (.refl (whole x.shape a)) shape').symm

namespace LayoutGradient

theorem find (laid : LayoutGradient w kind x y g) : Rules.standard.find y.kind = .ok (.standard kind) := by
  have listed := laid.layout
  rw [laid.named]
  simp only [Kind.layout, List.mem_cons, List.not_mem_nil, or_false] at listed
  rcases listed with rfl | rfl | rfl | rfl | rfl | rfl | rfl <;> rfl

theorem types (laid : LayoutGradient w kind x y g) : y.inputs.map Node.type = [x.type] := by
  rw [laid.inputs]
  rfl

theorem element (laid : LayoutGradient w kind x y g) (formed : y.Formed op) (same : op.kind = kind) :
    x.elementType = .int32 := by
  have typed := formed.typed
  rw [laid.types] at typed
  exact (Operator.infer_layout (same ▸ laid.layout) typed).symm.trans laid.whole

end LayoutGradient

/-- A node of a layout kind holds what its operator makes of the tensor of its input. -/
theorem holds_layout {n : Node} {a : Bytes} (formed : n.Formed op) (inputs : n.inputs = [x])
    (listed : op.kind ∈ Kind.layout) (axes : op.kind = .pad → x.shape ≠ []) (int : n.elementType = .int32)
    (fits : n.type.Fits) (given : Given leaf x a) : n.Holds leaf (op.tensor n.shape [whole x.shape a]) := by
  have polynomial : ∀ kind ∈ Kind.layout, kind ∈ Kind.polynomial ∧ kind ≠ .softmaxGradient := by decide
  have admits : op.Admits (n.inputs.map Node.type) := by
    rw [inputs]
    cases op with
    | pad => exact axes rfl
    | sum | reshape | transpose | slice | repeated | broadcast => trivial
    | _ => simp [Kind.layout, Operator.kind] at listed
  have afforded : op.afford (n.inputs.map Node.type) n.shape = .ok () := by
    have frugal : ∀ kind ∈ Kind.layout, kind ∈ Kind.frugal := by decide
    rw [inputs]
    exact Operator.afford_frugal (frugal _ listed)
  have values : List.Forall₂ (Given leaf) n.inputs [a] := by
    rw [inputs]
    exact .cons given .nil
  have holds := formed.holds_tensor int fits values (polynomial _ listed).1 (polynomial _ listed).2 admits afforded
  rwa [inputs] at holds

/-- One call whose operator is the transpose of the node's. -/
theorem turns_of_forms {op' : Operator} {type : TensorType} (laid : LayoutGradient w kind x y g) (formed : y.Formed op)
    (same : op.kind = kind)
    (ran : standardRule kind y (.node g) w = .ok [some d] v) (forms : w.Forms v d op' [g] type)
    (listed : op'.kind ∈ Kind.layout) (axes : op'.kind = .pad → g.shape ≠ []) (typed : d.type = x.type)
    (dual : ∀ a b : Tensor Int32, a.shape = x.shape → b.shape = y.shape →
      dot b (op.tensor y.shape [a]) = dot (op'.tensor x.shape [b]) a) : AnswersTransposed w x y g := by
  subst same
  have shape : d.shape = x.shape := congrArg TensorType.shape typed
  have shape' : g.shape = y.shape := congrArg TensorType.shape laid.typed
  have int : x.elementType = .int32 := laid.element formed rfl
  refine ⟨_, d, v, laid.find, ran, forms.member, typed, fun leaf a b evaluates evaluates' => ?_⟩
  have values := holds_layout formed laid.inputs laid.layout (fun pads => laid.axes (.inr pads)) laid.whole laid.result
    ⟨evaluates, int, laid.source.holdable⟩
  have answers := holds_layout forms.formed forms.inputs listed axes
    ((congrArg TensorType.elementType typed).trans int) (typed ▸ laid.source)
    ⟨evaluates', (congrArg TensorType.elementType laid.typed).trans laid.whole, shape' ▸ laid.result.holdable⟩
  refine transposes_of_dot values answers shape' shape ?_
  rw [shape]
  exact dual _ _ rfl shape'

theorem turns_reshape {s : Shape} (laid : LayoutGradient w .reshape x y g) (built : w.Built ShapeRules.Lasting)
    (formed : y.Formed (.reshape s)) : AnswersTransposed w x y g := by
  obtain ⟨_, types, volume, typed⟩ := Operator.inferReshape_eq_ok.mp formed.typed
  cases laid.types.symm.trans types
  have result := laid.typed.trans typed.symm
  have same : Shape.volume x.shape = Shape.volume g.shape := by
    rw [Node.shape_eq result]
    exact volume.symm
  obtain ⟨d, v, ran, forms⟩ := built.forms [g] (by simpa using laid.gradient)
    (Kind.means_reshape (x := g.type) (Value.lists_dims x.shape) same)
  refine turns_of_forms laid formed rfl ?_ forms (show Kind.reshape ∈ Kind.layout by decide) (Kind.noConfusion ·)
    (Node.type_eq forms.typed (Node.elementType_eq result)) ?_
  · rw [standardRule, firstInput_eq laid.inputs]
    exact bind_eq_ok.mpr ⟨x, w, rfl, bind_eq_ok.mpr ⟨d, v, ran, rfl⟩⟩
  · intro a b shape shape'
    have volumes : Shape.volume b.shape = Shape.volume a.shape := by
      rw [shape, shape', Node.shape_eq typed.symm]
      exact volume
    have moved := Tensor.dot_reshape volumes
    rwa [shape, shape'] at moved

/-- The rule of a transposition transposes by the inverse order. -/
theorem answers_transpose {order : List Int} (built : w.Built ShapeRules.Lasting)
    (formed : y.Formed (.transpose order)) (inputs : y.inputs = [x]) (own : g ∈ w.graph.nodes)
    (typed : g.type = y.type) :
    ∃ axes : List Nat, order = axes.map Int.ofNat ∧ axes.Perm (List.range x.shape.length) ∧ ∃ d v,
      standardRule .transpose y (.node g) w = .ok [some d] v ∧
        w.Forms v d (.transpose ((Shape.inverseOrder axes x.shape.length).map Int.ofNat)) [g] x.type := by
  obtain ⟨_, types, permutes, made⟩ := Operator.inferTranspose_eq_ok.mp formed.typed
  rw [inputs] at types
  cases types
  obtain ⟨axes, rfl, perm⟩ := Operator.isPermutation_axes permutes
  have result := typed.trans made.symm
  obtain ⟨inverts, turned⟩ := Operator.isPermutation_inverse (s := x.shape) perm
  have rank : g.type.shape.length = x.shape.length := by
    rw [show g.type.shape = _ from Node.shape_eq result, List.length_map, List.length_map, perm.length_eq,
      List.length_range]
    rfl
  have inverts' : Operator.isPermutation ((Shape.inverseOrder axes x.shape.length).map Int.ofNat)
      g.type.shape.length = true := by
    rw [rank]
    exact inverts
  have back : ((Shape.inverseOrder axes x.shape.length).map Int.ofNat).map (fun axis => g.shape.getD axis.toNat 0) =
      x.shape := by
    rw [Node.shape_eq result]
    exact turned
  obtain ⟨d, v, ran, forms⟩ := built.forms [g] (by simpa using own)
    (Kind.means_transpose (x := g.type) inverts')
  refine ⟨axes, rfl, perm, d, v, ?_,
    { forms with typed := forms.typed.trans (congrArg₂ TensorType.mk (Node.elementType_eq result) back) }⟩
  have program : standardRule .transpose y (.node g) = transposeRule y (.node g) := rfl
  rw [program]
  refine bind_eq_ok.mpr ⟨_, w, Building.of_eq_ok.mpr ⟨formed.transpose_order, rfl⟩, bind_eq_ok.mpr ⟨_, w,
    Building.of_eq_ok.mpr ⟨rfl, rfl⟩, bind_eq_ok.mpr ⟨_, w, Building.of_eq_ok.mpr ⟨inverse_ints perm, rfl⟩, ?_⟩⟩⟩
  exact bind_eq_ok.mpr ⟨d, v, ran, rfl⟩

theorem turns_transpose {order : List Int} (laid : LayoutGradient w .transpose x y g)
    (built : w.Built ShapeRules.Lasting) (formed : y.Formed (.transpose order)) : AnswersTransposed w x y g := by
  obtain ⟨axes, rfl, perm, d, v, ran, forms⟩ :=
    answers_transpose built formed laid.inputs laid.gradient laid.typed
  have rank : y.shape.length = x.shape.length := by
    obtain ⟨_, types, _, typed⟩ := Operator.inferTranspose_eq_ok.mp formed.typed
    cases laid.types.symm.trans types
    rw [Node.shape_eq typed.symm, List.length_map, List.length_map, perm.length_eq, List.length_range]
  refine turns_of_forms laid formed rfl ran forms (show Kind.transpose ∈ Kind.layout by decide) (Kind.noConfusion ·)
    forms.typed ?_
  intro a b shape shape'
  have rank' : b.shape.length = a.shape.length := by rw [shape, shape', rank]
  have perm : axes.Perm (List.range a.shape.length) := by rw [shape]; exact perm
  have moved := Tensor.dot_transpose perm rank'
  simp only [Operator.tensor, Shape.toNat_ofNat]
  rwa [shape] at moved

theorem turns_slice {start stop : List Int} (laid : LayoutGradient w .slice x y g) (built : w.Built ShapeRules.Lasting)
    (formed : y.Formed (.slice start stop)) : AnswersTransposed w x y g := by
  obtain ⟨_, types, ⟨fits, fits'⟩, s, inside, typed⟩ := Operator.inferSlice_eq_ok.mp formed.typed
  cases laid.types.symm.trans types
  obtain ⟨low, high⟩ := formed.slice_bounds
  have result := laid.typed.trans typed.symm
  obtain ⟨within, sizes, _, _⟩ := Operator.sliceDims_eq_ok inside fits fits'
  obtain ⟨after, behind, long, long', lower, upper, filled⟩ := Operator.sliceDims_margins inside fits fits'
  rw [← Node.shape_eq result] at long long' filled
  obtain ⟨d, v, ran, forms⟩ := built.forms [g] (by simpa using laid.gradient)
    (Kind.means_pad (x := g.type) (Value.lists_ofParam start) (Value.lists_list _) long (behind ▸ long') lower
      (behind ▸ upper) (behind ▸ filled))
  refine turns_of_forms laid formed rfl ?_ forms (show Kind.pad ∈ Kind.layout by decide) (fun _ scalar => ?_)
    (Node.type_eq forms.typed (Node.elementType_eq result)) ?_
  · have program : standardRule .slice y (.node g) = sliceRule y (.node g) := rfl
    have stops : (do (← y.params.get "stop").items) = Except.ok (stop.map Param.int) :=
      Result.bind_eq_ok.mpr ⟨_, high, rfl⟩
    rw [program, sliceRule, oneInput_eq laid.inputs]
    refine bind_eq_ok.mpr ⟨x, w, rfl, bind_eq_ok.mpr ⟨_, w, Building.of_eq_ok.mpr ⟨stops, rfl⟩, bind_eq_ok.mpr ⟨_, w,
      Building.of_eq_ok.mpr ⟨mapM_withDim_sub x.shape stop, rfl⟩, bind_eq_ok.mpr ⟨_, w,
        Building.of_eq_ok.mpr ⟨low, rfl⟩, bind_eq_ok.mpr ⟨d, v, ran, rfl⟩⟩⟩⟩⟩
  · -- a gradient without axes would be one of a slice of a scalar
    rw [scalar] at long
    exact laid.axes (.inl rfl) (List.eq_nil_of_length_eq_zero (fits.symm.trans long))
  · intro a b shape shape'
    refine Tensor.dot_slice (shape'.trans ((Node.shape_eq typed.symm).trans sizes)).symm ?_
    rw [shape, shape', Node.shape_eq typed.symm]
    exact within

/-- The rule of margins cuts them off. -/
theorem answers_pad {before after : List Int} (built : w.Built ShapeRules.Lasting)
    (formed : y.Formed (.pad before after)) (inputs : y.inputs = [x]) (own : g ∈ w.graph.nodes)
    (typed : g.type = y.type) (positive : ∀ d ∈ x.shape, 1 ≤ d) :
    ∃ d v, standardRule .pad y (.node g) w = .ok [some d] v ∧ w.Forms v d
      (.slice before (List.zipWith (fun (low : Int) (dim : Nat) => low + dim) before x.shape)) [g] x.type := by
  obtain ⟨_, types, ⟨fits, fits'⟩, ⟨lower, upper⟩, made⟩ := Operator.inferPad_eq_ok.mp formed.typed
  rw [inputs] at types
  cases types
  have result := typed.trans made.symm
  have inside := Operator.sliceDims_padded fits fits' lower positive
  obtain ⟨long, long'⟩ := Operator.length_padded fits fits'
  rw [← Node.shape_eq result] at long long'
  obtain ⟨d, v, ran, forms⟩ := built.forms [g] (by simpa using own)
    (Kind.means_slice (x := g.type) (Value.lists_ofParam before) (Value.lists_list _) long long'
      (Node.shape_eq result ▸ inside))
  refine ⟨d, v, ?_, { forms with typed := Node.type_eq forms.typed (Node.elementType_eq result) }⟩
  have program : standardRule .pad y (.node g) = padRule y (.node g) := rfl
  rw [program, padRule, oneInput_eq inputs]
  refine bind_eq_ok.mpr ⟨x, w, rfl, bind_eq_ok.mpr ⟨_, w, Building.of_eq_ok.mpr ⟨formed.pad_margins.1, rfl⟩,
    bind_eq_ok.mpr ⟨_, w, Building.of_eq_ok.mpr ⟨rfl, rfl⟩, bind_eq_ok.mpr ⟨_, w,
      Building.of_eq_ok.mpr ⟨mapM_withDim_add before x.shape, rfl⟩, bind_eq_ok.mpr ⟨d, v, ran, rfl⟩⟩⟩⟩⟩

theorem turns_pad {before after : List Int} (laid : LayoutGradient w .pad x y g) (built : w.Built ShapeRules.Lasting)
    (formed : y.Formed (.pad before after)) : AnswersTransposed w x y g := by
  obtain ⟨_, types, ⟨fits, fits'⟩, _, _⟩ := Operator.inferPad_eq_ok.mp formed.typed
  cases laid.types.symm.trans types
  obtain ⟨d, v, ran, forms⟩ := answers_pad built formed laid.inputs laid.gradient laid.typed laid.positive
  refine turns_of_forms laid formed rfl ran forms (show Kind.slice ∈ Kind.layout by decide) (Kind.noConfusion ·)
    forms.typed ?_
  intro a b shape shape'
  refine Tensor.dot_pad (Shape.within_margins ?_ ?_)
  · rw [List.length_map, shape]
    exact fits
  · rw [List.length_map, shape]
    exact fits'

theorem turns_repeated {count : Int} (laid : LayoutGradient w .repeated x y g) (built : w.Built ShapeRules.Lasting)
    (formed : y.Formed (.repeated count)) : AnswersTransposed w x y g := by
  obtain ⟨_, types, _, typed⟩ := Operator.inferRepeated_eq_ok.mp formed.typed
  cases laid.types.symm.trans types
  have result := laid.typed.trans typed.symm
  have front : ∀ i ∈ [(0 : Int)], 0 ≤ i ∧ i < g.type.shape.length := by
    rw [show g.type.shape = count.toNat :: x.shape from Node.shape_eq result]
    simp
  obtain ⟨axes, members, means⟩ := Kind.means_sum front (by simp)
  have only : ∀ k, k ∈ axes ↔ k = 0 := fun k => by
    rw [members, show g.type.shape = count.toNat :: x.shape from Node.shape_eq result]
    simp
    omega
  obtain ⟨d, v, ran, forms⟩ := built.forms [g] (by simpa using laid.gradient) means
  have kept : Shape.keep g.type.shape axes = x.shape := by
    rw [show g.type.shape = count.toNat :: x.shape from Node.shape_eq result, Shape.keep_front only]
  refine turns_of_forms laid formed rfl ?_ forms (show Kind.sum ∈ Kind.layout by decide) (Kind.noConfusion ·)
    (forms.typed.trans (congrArg₂ TensorType.mk (Node.elementType_eq result) kept)) ?_
  · exact bind_eq_ok.mpr ⟨d, v, ran, rfl⟩
  · intro a b shape shape'
    have whole : b.shape = count.toNat :: a.shape := by rw [shape, shape', Node.shape_eq typed.symm]; rfl
    have collapses : Shape.Collapses axes 0 b.shape (List.replicate 1 1 ++ a.shape) := by
      rw [whole]
      exact .behind (show ∀ k, 0 ≤ k → k < 0 + [count.toNat].length → k ∈ axes by simp [only])
        (.self fun k above member => by simp [(only k).mp member] at above)
    have total : (b.sum axes).shape = a.shape := by rw [Tensor.sum_shape, whole, Shape.keep_front only]
    have gathers := Tensor.gathers_total collapses (whole ▸ .cons count.toNat a.shape) total
    exact shape' ▸ Tensor.dot_broadcast gathers total

/-- What has been reduced is brought back to its axes and stretched along them, in two calls. -/
theorem turns_sum {axes : List Nat} (laid : LayoutGradient w .sum x y g) (built : w.Built ShapeRules.Lasting)
    (formed : y.Formed (.sum axes)) : AnswersTransposed w x y g := by
  obtain ⟨_, types, typed⟩ := Operator.inferReduction_eq_ok.mp formed.typed
  cases laid.types.symm.trans types
  have result := laid.typed.trans typed.symm
  have stretches := Shape.stretches_collapse x.shape axes
  have volume : Shape.volume (Shape.collapse x.shape axes) = Shape.volume g.type.shape := by
    rw [show g.type.shape = Shape.keep x.shape axes from Node.shape_eq result, Shape.volume_keep_collapse]
  obtain ⟨r, v, ran, first⟩ := built.forms [g] (by simpa using laid.gradient)
    (Kind.means_reshape (x := g.type) (Value.lists_dims (Shape.collapse x.shape axes)) volume)
  have shape : r.shape = Shape.collapse x.shape axes := Node.shape_eq first.typed
  have common : ∀ refusal, Shape.common r.type.shape x.shape refusal = .ok x.shape := fun refusal => by
    rw [show r.type.shape = Shape.collapse x.shape axes from shape]
    exact (stretches.common (laid.stretched rfl) laid.source.holdable refusal).1
  obtain ⟨d, v', ran', second⟩ := first.built.forms [r] (by simpa using first.member)
    (Kind.means_broadcast (x := r.type) common)
  have element : r.elementType = x.elementType := (Node.elementType_eq first.typed).trans (Node.elementType_eq result)
  have typed' : d.type = x.type := Node.type_eq second.typed element
  have int : x.elementType = .int32 := laid.element formed rfl
  have program : standardRule .sum y (.node g) = sumRule y (.node g) := rfl
  refine ⟨_, d, v', laid.find, ?_, second.member, typed', fun leaf a b evaluates evaluates' => ?_⟩
  · rw [Rule.run, program, sumRule, oneInput_eq laid.inputs]
    refine bind_eq_ok.mpr ⟨x, w, rfl, bind_eq_ok.mpr ⟨_, w, Building.of_eq_ok.mpr ⟨formed.sum_axes, rfl⟩,
      bind_eq_ok.mpr ⟨_, w, Building.of_eq_ok.mpr ⟨keptDims_dims axes x.shape, rfl⟩, ?_⟩⟩⟩
    exact bind_eq_ok.mpr ⟨d, v', bind_eq_ok.mpr ⟨r, v, ran, ran'⟩, rfl⟩
  · have fits : r.type.Fits := by
      rw [first.typed]
      exact laid.source.stretched laid.positive stretches
    have values := holds_layout formed laid.inputs laid.layout (Kind.noConfusion ·) laid.whole laid.result
      ⟨evaluates, int, laid.source.holdable⟩
    have shape' : g.shape = y.shape := congrArg TensorType.shape laid.typed
    obtain ⟨c, middle, held⟩ := holds_layout first.formed first.inputs
      (show Kind.reshape ∈ Kind.layout by decide) (Kind.noConfusion ·) (element.trans int) fits
      ⟨evaluates', (Node.elementType_eq result).trans int, shape' ▸ laid.result.holdable⟩
    have answers := holds_layout second.formed second.inputs
      (show Kind.broadcast ∈ Kind.layout by decide) (Kind.noConfusion ·)
      ((congrArg TensorType.elementType typed').trans int) (typed' ▸ laid.source)
      ⟨middle, element.trans int, fits.holdable⟩
    have shape'' : d.shape = x.shape := congrArg TensorType.shape typed'
    refine transposes_of_dot values (answers.same (held.broadcast ?_)) shape' shape'' ?_
    · rw [shape'', show (whole r.shape c).shape = r.shape from rfl, shape]
      exact stretches
    · have reduced : (whole g.shape b).shape = Shape.keep (whole x.shape a).shape axes := Node.shape_eq result
      have dual := Tensor.dot_sum reduced
      simp only [Operator.tensor, shape, shape'']
      exact dual

/-- What was stretched is added up again, and gathers the cells that were read more than once. -/
theorem unbroadcast_gathers {s : Shape} (built : w.Built ShapeRules.Lasting) (own : g ∈ w.graph.nodes)
    (stretches : Shape.Stretches s g.shape) :
    ∃ u v, unbroadcast g (s.map fun (d : Nat) => .int d) w = .ok u v ∧ u ∈ v.graph.nodes ∧
      u.type = ⟨g.elementType, s⟩ ∧ ∀ leaf b, g.elementType = .int32 → g.type.Fits →
        TensorType.Fits ⟨g.elementType, s⟩ → g.Evaluates leaf b →
          ∃ t, u.Holds leaf t ∧ t.shape = s ∧ t.Gathers (whole g.shape b) := by
  let target : Node := ⟨⟨0, 0⟩, "", [], [], ⟨g.elementType, s⟩, none⟩
  have program : unbroadcast g (s.map fun (d : Nat) => .int d) = unbroadcastTo (.node g) target := rfl
  rw [program]
  rcases unbroadcastTo_eq (a := target) stretches with ⟨same, steps⟩ | ⟨is, k, bounds, distinct, collapses, steps⟩
  · refine ⟨g, w, by rw [steps]; rfl, own, congrArg (TensorType.mk _) same, fun leaf b _ _ _ evaluates => ?_⟩
    exact ⟨_, evaluates.holds, same, .refl _⟩
  obtain ⟨axes, members, means⟩ := Kind.means_sum (x := g.type) bounds distinct
  have collapses : Shape.Collapses axes 0 g.shape (List.replicate k 1 ++ s) := collapses axes members
  obtain ⟨r, v, ran, first⟩ := built.forms [g] (by simpa using own) means
  have shape : r.shape = Shape.keep g.shape axes := Node.shape_eq first.typed
  have total : ∀ leaf b, g.elementType = .int32 → g.type.Fits → TensorType.Fits ⟨g.elementType, s⟩ →
      g.Evaluates leaf b → r.type.Fits ∧ r.Holds leaf ((whole g.shape b).sum axes) := by
    intro leaf b int fits fits' evaluates
    have small : r.type.Fits := by
      rw [first.typed]
      refine ⟨fits.holdable.sublist (Shape.keep_eq g.shape axes ▸ Shape.keepFrom_sublist axes 0 g.shape), ?_⟩
      rw [TensorType.byteSize, TensorType.volume, show Shape.volume (Shape.keep g.type.shape axes) = Shape.volume s
        from collapses.volume_keep]
      exact fits'.room
    exact ⟨small, holds_layout first.formed first.inputs (show Kind.sum ∈ Kind.layout by decide) (Kind.noConfusion ·)
      ((Node.elementType_eq first.typed).trans int) small ⟨evaluates, int, fits.holdable⟩⟩
  by_cases same : r.shape = s
  · have summed : ∀ b, ((whole g.shape b).sum axes).shape = s := fun b => Tensor.sum_shape.trans (shape.symm.trans same)
    refine ⟨r, v, ?_, first.member, first.typed.trans (congrArg (TensorType.mk _) (shape.symm.trans same)),
      fun leaf b int fits fits' evaluates => ⟨_, (total leaf b int fits fits' evaluates).2, summed b, ?_⟩⟩
    · rw [steps]
      exact bind_eq_ok.mpr ⟨r, v, ran, congrFun (if_pos (areDims_wholes.mpr same.symm)) v⟩
    · exact Tensor.gathers_total collapses stretches (summed b)
  · have volume : Shape.volume s = Shape.volume r.type.shape :=
      collapses.volume_keep.symm.trans (congrArg Shape.volume shape.symm)
    obtain ⟨u, v', ran', second⟩ := first.built.forms [r] (by simpa using first.member)
      (Kind.means_reshape (x := r.type) (Value.lists_wholes s) volume)
    have element : r.elementType = g.elementType := Node.elementType_eq first.typed
    have typed : u.type = ⟨g.elementType, s⟩ := second.typed.trans (congrArg (TensorType.mk · s) element)
    refine ⟨u, v', ?_, second.member, typed, fun leaf b int fits fits' evaluates => ?_⟩
    · rw [steps]
      exact bind_eq_ok.mpr ⟨r, v, ran, (congrFun (if_neg fun dims => same (areDims_wholes.mp dims).symm) v).trans ran'⟩
    · obtain ⟨small, c, middle, held⟩ := total leaf b int fits fits' evaluates
      have answers := holds_layout second.formed second.inputs
        (show Kind.reshape ∈ Kind.layout by decide) (Kind.noConfusion ·)
        ((Node.elementType_eq typed).trans int) (typed ▸ fits') ⟨middle, element.trans int, small.holdable⟩
      have moved := held.reshape (s := s) volume
      refine ⟨_, answers.same ?_, rfl, Tensor.gathers_sum collapses stretches⟩
      rw [Operator.tensor, Node.shape_eq typed]
      exact moved

theorem turns_broadcast {s : Shape} (laid : LayoutGradient w .broadcast x y g) (built : w.Built ShapeRules.Lasting)
    (formed : y.Formed (.broadcast s)) : AnswersTransposed w x y g := by
  obtain ⟨_, types, common, typed⟩ := Operator.inferBroadcast_eq_ok.mp formed.typed
  cases laid.types.symm.trans types
  have result := laid.typed.trans typed.symm
  have shape : g.shape = y.shape := congrArg TensorType.shape laid.typed
  have stretches : Shape.Stretches x.shape g.shape :=
    Node.shape_eq result ▸ (Shape.broadcast?_eq_some (Operator.common_eq_ok common)).1
  obtain ⟨d, v, ran, member, made, gathers⟩ := unbroadcast_gathers built laid.gradient stretches
  have int : x.elementType = .int32 := laid.element formed rfl
  have typed' : d.type = x.type := Node.type_eq made (Node.elementType_eq result)
  refine ⟨_, d, v, laid.find, ?_, member, typed', fun leaf a b evaluates evaluates' => ?_⟩
  · rw [Rule.run, standardRule, firstInput_eq laid.inputs]
    exact bind_eq_ok.mpr ⟨x, w, rfl, bind_eq_ok.mpr ⟨d, v, ran, rfl⟩⟩
  · have values := holds_layout formed laid.inputs laid.layout (Kind.noConfusion ·) laid.whole laid.result
      ⟨evaluates, int, laid.source.holdable⟩
    obtain ⟨t, answers, size, gathers⟩ := gathers leaf b ((Node.elementType_eq result).trans int)
      (laid.typed ▸ laid.result) (made ▸ typed' ▸ laid.source) evaluates'
    exact transposes_of_dot values answers shape (congrArg TensorType.shape typed')
      (shape ▸ Tensor.dot_broadcast gathers size)

/-- Gradient rules of layout kinds are transposes: at every node that such a kind lays out of whole elements, the rule
of the library answers every gradient of the node's type with one node of the type of the input, which pairs with the
input to what the gradient pairs with the node. In particular, to sum back what was stretched is the transpose of
stretching, for all shapes of which one stretches to the other. -/
theorem layout_transposed (built : w.Built ShapeRules.Lasting) :
    (∀ kind x y g, LayoutGradient w kind x y g → AnswersTransposed w x y g) ∧
      ∀ (g : Node) (s : Shape), g ∈ w.graph.nodes → g.elementType = .int32 → g.type.Fits →
        TensorType.Fits ⟨.int32, s⟩ → Shape.broadcast? s g.shape = some g.shape →
          ∃ u v, unbroadcast g (s.map fun (d : Nat) => .int d) w = .ok u v ∧ u ∈ v.graph.nodes ∧ u.type = ⟨.int32, s⟩ ∧
            ∀ leaf b, g.Evaluates leaf b → ∃ e, u.Evaluates leaf e ∧ ∀ t : Tensor Int32, t.shape = s →
              Int32.paired (t.broadcast g.shape) (whole g.shape b) ≡ Int32.paired t (whole s e) [ZMOD 2 ^ 32] := by
  constructor
  · intro kind x y g laid
    obtain ⟨op, same, formed⟩ := built.formed y laid.own kind laid.named
    have listed := laid.layout
    cases op with
    | reshape => cases same; exact turns_reshape laid built formed
    | transpose => cases same; exact turns_transpose laid built formed
    | slice => cases same; exact turns_slice laid built formed
    | pad => cases same; exact turns_pad laid built formed
    | repeated => cases same; exact turns_repeated laid built formed
    | broadcast => cases same; exact turns_broadcast laid built formed
    | sum => cases same; exact turns_sum laid built formed
    | _ => simp [← same, Kind.layout, Operator.kind] at listed
  · intro g s own int fits fits' common
    obtain ⟨u, v, ran, member, typed, gathers⟩ :=
      unbroadcast_gathers built own (Shape.broadcast?_eq_some common).1
    rw [int] at typed gathers
    refine ⟨u, v, ran, member, typed, fun leaf b evaluates => ?_⟩
    obtain ⟨t, ⟨e, evaluates', held⟩, shape, gathers⟩ := gathers leaf b rfl fits fits' evaluates
    refine ⟨e, evaluates', fun t' shape' => Int32.paired_of_dot ?_⟩
    calc dot (whole g.shape b) (t'.broadcast g.shape) = dot t t' :=
          Tensor.dot_broadcast gathers (shape.trans shape'.symm)
      _ = dot (whole s e) t' := (Tensor.dot_same (Node.shape_eq typed ▸ held) (.refl t') shape'.symm).symm

end Gradient

namespace Sample

/-! A part of a matrix, and a gradient of it. -/

def matrix : Node := ⟨⟨0, 0⟩, "placeholder", [], [], ⟨.int32, [2, 3]⟩, none⟩
def matrixPart : Node :=
  ⟨⟨0, 1⟩, "slice", [matrix], [("start", .dims [0, 1]), ("stop", .dims [2, 3])], ⟨.int32, [2, 2]⟩, none⟩
def partGradient : Node := ⟨⟨0, 2⟩, "placeholder", [], [], ⟨.int32, [2, 2]⟩, none⟩

def partWorkspace : Workspace where
  rules := .standard
  graph := ⟨0, .null, #[matrix, matrixPart, partGradient],
    [(.interior "slice" [0] [("start", .dims [0, 1]), ("stop", .dims [2, 3])], matrixPart)]⟩
  store := .empty

theorem partWorkspace_built : partWorkspace.Built ShapeRules.Lasting := by
  have first : Building.placeholder (.dims [2, 3]) (.elementType .int32) ⟨.standard, .empty 0 .null, .empty⟩ =
      .ok matrix ⟨.standard, ⟨0, .null, #[matrix], []⟩, .empty⟩ := rfl
  have second : Building.call "slice" [.node matrix]
      (.dictionary [Building.entry "start" (.dims [0, 1]), Building.entry "stop" (.dims [2, 3])])
      ⟨.standard, ⟨0, .null, #[matrix], []⟩, .empty⟩ = .ok matrixPart ⟨.standard, ⟨0, .null, #[matrix, matrixPart],
        [(.interior "slice" [0] [("start", .dims [0, 1]), ("stop", .dims [2, 3])], matrixPart)]⟩, .empty⟩ := rfl
  have third : Building.placeholder (.dims [2, 2]) (.elementType .int32) ⟨.standard, ⟨0, .null, #[matrix, matrixPart],
      [(.interior "slice" [0] [("start", .dims [0, 1]), ("stop", .dims [2, 3])], matrixPart)]⟩, .empty⟩ =
        .ok partGradient partWorkspace := rfl
  exact ((Workspace.built_empty.placeholder first).call (by simp) second).placeholder third

theorem matrixPart_laid : Gradient.LayoutGradient partWorkspace .slice matrix matrixPart partGradient where
  layout := by decide
  named := rfl
  inputs := rfl
  own := by simp [partWorkspace]
  gradient := by simp [partWorkspace]
  whole := rfl
  typed := rfl
  positive := by decide
  axes _ := by decide
  source := ⟨Shape.holdable_iff.mp (by decide), by decide⟩
  result := ⟨Shape.holdable_iff.mp (by decide), by decide⟩
  stretched := nofun

/-- The part turns its gradient into one of the matrix; a gradient of two rows and columns is summed to one column. -/
theorem layout_transposed_part :
    Gradient.LayoutGradient partWorkspace .slice matrix matrixPart partGradient ∧
      Gradient.AnswersTransposed partWorkspace matrix matrixPart partGradient ∧
      Shape.broadcast? [2, 1] partGradient.shape = some partGradient.shape ∧
      ∃ u v, Gradient.unbroadcast partGradient [.int 2, .int 1] partWorkspace = .ok u v ∧
        u ∈ v.graph.nodes ∧ u.type = ⟨.int32, [2, 1]⟩ ∧ ∀ leaf b, partGradient.Evaluates leaf b →
          ∃ e, u.Evaluates leaf e ∧ ∀ t : Tensor Int32, t.shape = [2, 1] →
            Int32.paired (t.broadcast [2, 2]) (Tensor.whole [2, 2] b) ≡
              Int32.paired t (Tensor.whole [2, 1] e) [ZMOD 2 ^ 32] := by
  obtain ⟨turns, gathers⟩ := Gradient.layout_transposed partWorkspace_built
  have common : Shape.broadcast? [2, 1] partGradient.shape = some partGradient.shape := by decide
  exact ⟨matrixPart_laid, turns .slice matrix matrixPart partGradient matrixPart_laid, common, gathers partGradient
    [2, 1] matrixPart_laid.gradient rfl matrixPart_laid.result ⟨Shape.holdable_iff.mp (by decide), by decide⟩ common⟩

/-! Single cells of more axes than can be stretched, and of more than arrays have. -/

def intOf33Axes : Node := ⟨⟨0, 0⟩, "placeholder", [], [], ⟨.int32, List.replicate 33 1⟩, none⟩
def sumOf33Axes : Node := ⟨⟨0, 1⟩, "sum", [intOf33Axes], [("axes", .dims (List.range 33))], ⟨.int32, []⟩, none⟩
def scalarGradient : Node := ⟨⟨0, 2⟩, "placeholder", [], [], ⟨.int32, []⟩, none⟩
def intOf65Axes : Node := ⟨⟨0, 3⟩, "placeholder", [], [], ⟨.int32, List.replicate 65 1⟩, none⟩
def reshapedOf65Axes : Node :=
  ⟨⟨0, 4⟩, "reshape", [intOf65Axes], [("shape", .dims (List.replicate 65 1))], ⟨.int32, List.replicate 65 1⟩, none⟩

def longShapesWorkspace : Workspace where
  rules := .standard
  graph := ⟨0, .null, #[intOf33Axes, sumOf33Axes, scalarGradient, intOf65Axes, reshapedOf65Axes],
    [(.interior "reshape" [3] [("shape", .dims (List.replicate 65 1))], reshapedOf65Axes),
      (.interior "sum" [0] [("axes", .dims (List.range 33))], sumOf33Axes)]⟩
  store := .empty

theorem mem_longShapesWorkspace {n : Node} :
    n ∈ longShapesWorkspace.graph.nodes ↔ n = intOf33Axes ∨ n = sumOf33Axes ∨ n = scalarGradient ∨ n = intOf65Axes ∨
      n = reshapedOf65Axes := by
  simp only [longShapesWorkspace, List.mem_toArray, List.mem_cons, List.not_mem_nil, or_false]

theorem longShapesWorkspace_built : longShapesWorkspace.Built ShapeRules.Lasting := by
  have first : Building.placeholder (.dims (List.replicate 33 1)) (.elementType .int32)
      ⟨.standard, .empty 0 .null, .empty⟩ = .ok intOf33Axes ⟨.standard, ⟨0, .null, #[intOf33Axes], []⟩, .empty⟩ := rfl
  have second : Building.call "sum" [.node intOf33Axes] .null ⟨.standard, ⟨0, .null, #[intOf33Axes], []⟩, .empty⟩ =
      .ok sumOf33Axes ⟨.standard, ⟨0, .null, #[intOf33Axes, sumOf33Axes],
        [(.interior "sum" [0] [("axes", .dims (List.range 33))], sumOf33Axes)]⟩, .empty⟩ := rfl
  have third : Building.placeholder (.dims []) (.elementType .int32) ⟨.standard, ⟨0, .null, #[intOf33Axes, sumOf33Axes],
      [(.interior "sum" [0] [("axes", .dims (List.range 33))], sumOf33Axes)]⟩, .empty⟩ =
        .ok scalarGradient ⟨.standard, ⟨0, .null, #[intOf33Axes, sumOf33Axes, scalarGradient],
          [(.interior "sum" [0] [("axes", .dims (List.range 33))], sumOf33Axes)]⟩, .empty⟩ := rfl
  have fourth : Building.placeholder (.dims (List.replicate 65 1)) (.elementType .int32)
      ⟨.standard, ⟨0, .null, #[intOf33Axes, sumOf33Axes, scalarGradient],
        [(.interior "sum" [0] [("axes", .dims (List.range 33))], sumOf33Axes)]⟩, .empty⟩ =
          .ok intOf65Axes ⟨.standard, ⟨0, .null, #[intOf33Axes, sumOf33Axes, scalarGradient, intOf65Axes],
            [(.interior "sum" [0] [("axes", .dims (List.range 33))], sumOf33Axes)]⟩, .empty⟩ := rfl
  have fifth : Building.call "reshape" [.node intOf65Axes]
      (.dictionary [Building.entry "shape" (.dims (List.replicate 65 1))])
      ⟨.standard, ⟨0, .null, #[intOf33Axes, sumOf33Axes, scalarGradient, intOf65Axes],
        [(.interior "sum" [0] [("axes", .dims (List.range 33))], sumOf33Axes)]⟩, .empty⟩ =
          .ok reshapedOf65Axes longShapesWorkspace := rfl
  have energyWorkspace := (Workspace.built_empty.placeholder first).call (by simp) second
  exact ((energyWorkspace.placeholder third).placeholder fourth).call (by simp) fifth

/-- Without limits to shapes a rule need not answer, and what was laid out need not have a value. -/
theorem layout_refused :
    longShapesWorkspace.Built ShapeRules.Lasting ∧ (∀ n ∈ longShapesWorkspace.graph.nodes, n.elementType = .int32 ∧
      ∀ d ∈ n.shape, 1 ≤ d) ∧
      (sumOf33Axes ∈ longShapesWorkspace.graph.nodes ∧ scalarGradient ∈ longShapesWorkspace.graph.nodes ∧
        reshapedOf65Axes ∈ longShapesWorkspace.graph.nodes) ∧
      sumOf33Axes.Formed (.sum (List.range 33)) ∧ scalarGradient.type = sumOf33Axes.type ∧
      (∃ v, Gradient.standardRule .sum sumOf33Axes (.node scalarGradient) longShapesWorkspace =
        .error (.fault .tooManyAxes) v) ∧
      reshapedOf65Axes.Formed (.reshape (List.replicate 65 1)) ∧ intOf65Axes.byteSize = 4 ∧
      reshapedOf65Axes.evaluate (fun _ => .ok (Bytes.zeros 4)) = .fault .notAddressable := by
  refine ⟨longShapesWorkspace_built, ?_, ?_, ⟨rfl, rfl, rfl, [], rfl⟩, rfl, ⟨_, rfl⟩,
    ⟨rfl, rfl, rfl, [Building.entry "shape" (.dims (List.replicate 65 1))], rfl⟩, rfl, ?_⟩
  · intro n member
    rcases mem_longShapesWorkspace.mp member with rfl | rfl | rfl | rfl | rfl <;> exact ⟨rfl, by decide⟩
  · simp [mem_longShapesWorkspace]
  · rfl

end Sample
end TensorDag
