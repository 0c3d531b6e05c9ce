import TensorDag.Proofs.Computing
import TensorDag.Proofs.Tiling

/-!
Rules of shapes and kernels agree. `Operator.array` is what the host's kernel computes at a node, with convolutions
and pools step by step, so that no shape in it is one that the rules have inferred. At every node that its operator is
defined on and that there is room for, the kernel returns, the array has the shape of the node, and what is written
are its bytes, as many as the node has.
-/
namespace TensorDag
open Result (bind_eq_ok)

namespace Tensor.Same
variable {α β : Type} {a b : Tensor α}

theorem map (same : a.Same b) (f : α → β) : (a.map f).Same (b.map f) :=
  ⟨same.shape, fun index inside => congrArg f (same.cells index inside)⟩

theorem cells_eq (same : a.Same b) : a.cells = b.cells := by
  rw [Tensor.cells, Tensor.cells, ← same.shape]
  exact List.map_congr_left fun index listed => same.cells index (Shape.mem_indices.mp listed)

theorem bytes_eq {a b : Tensor UInt32} (same : a.Same b) : a.bytes = b.bytes := congrArg Bytes.ofWords same.cells_eq

end Tensor.Same

namespace Operator
variable {α : Type}

/-- A convolution, a pool, one of their gradients or a place of a minimum, step by step. -/
def bySteps? [Memory] [Element α] (op : Operator) (arg : Nat → Result (Tensor α)) : Option (Result Computed) :=
  match op with
  | .convolution c => some do
    let x ← arg 0 >>= fourAxes
    return .of (← x.convolutionBySteps c.windowing (← arg 1 >>= fourAxes))
  | .featuresGradient c => some do
    let g ← arg 0 >>= fourAxes
    let filters ← arg 1 >>= fourAxes
    let features ← (c.features.map .ok).getD (.fault .noParameter)
    return .of (← g.featuresGradientBySteps c.windowing features filters)
  | .filtersGradient c => some do
    let g ← arg 0 >>= fourAxes
    let x ← arg 1 >>= fourAxes
    let filters ← (c.filters.map .ok).getD (.fault .noParameter)
    return .of (← g.filtersGradientBySteps c.windowing filters x)
  | .maxpool dims => some do
    let x ← arg 0 >>= fourAxes
    return .of (← x.maxpoolBySteps (dims.1.toNat, dims.2.toNat))
  | .maxpoolGradient dims => some do
    let g ← arg 0
    let x ← arg 2 >>= fourAxes
    return .of (← g.maxpoolGradientBySteps (dims.1.toNat, dims.2.toNat) x)
  | .argmin axis => some do
    let places := (← arg 0 >>= notEmptyAlong [axis]).argminBySteps axis
    places.shape.room 8
    return .of (places.map fun place => Int32.ofNat place)
  | _ => none

/-- The array that the host's kernel computes at a node, before it is stored: step by step, or else as the kernel has
it. -/
def array [Memory] (op : Operator) (n : Node) (args : List Bytes) (streams : Streams) : Result Computed :=
  let known := op.kind.result n args streams
  match op.kind.elementType? (n.inputs.map Node.type) with
  | some .int32 => (op.bySteps? (argument n.inputs args : Nat → Result (Tensor Int32))).getD known
  | some .float32 => (op.bySteps? (argument n.inputs args : Nat → Result (Tensor Single))).getD known
  | none => (op.bySteps? (argument n.inputs args : Nat → Result (Tensor Double))).getD known

/-- The steps go through, and make the cells that the operator computes. -/
def Stepwise [Memory] [Element α] (op : Operator) (shape : Shape) (arg : Nat → Result (Tensor α)) : Prop :=
  ∃ c c', op.compute shape arg = .ok c ∧ op.bySteps? arg = some (.ok c') ∧ ∀ e, (c' e).Same (c e)

end Operator

def Kind.stepwise : List Kind := sliding ++ [.maxpool, .maxpoolGradient, .argmin]

namespace Node.Formed
variable [Memory] {α : Type} [Element α] {n : Node} {op : Operator} {args : List (Tensor α)}
    {arg : Nat → Result (Tensor α)}

theorem convolution_stepwise {c : ConvolutionAttributes} (formed : n.Formed (.convolution c))
    (afforded : (Operator.convolution c).afford (n.inputs.map Node.type) n.shape = .ok ()) (held : n.shape.Holdable)
    (supplied : n.Supplied arg args) : (Operator.convolution c).Stepwise n.shape arg := by
  obtain ⟨x, y, s, types, same, fits, typed⟩ := Operator.inferConvolution_eq_ok.mp formed.typed
  obtain ⟨a, b, rfl, first, second, left, right⟩ := supplied.pair types
  have computed := (formed.compute_tensor held (by simp [Kind.polynomial, Operator.kind]) nofun supplied).1
  rw [types, Node.shape_eq typed.symm, ConvolutionAttributes.afford_convolution same fits, ← left, ← right] at afforded
  rw [← left, ← right, ← Node.shape_eq typed.symm] at fits
  obtain ⟨framed, windows, _⟩ := afforded
  obtain ⟨_, _, _, _, _, _, _, _, _, four, four', _⟩ := ConvolutionAttributes.shape_eq_ok fits
  obtain ⟨t, made, cells⟩ := Tensor.convolutionBySteps_eq formed.convolution.slides fits framed windows
  refine ⟨_, _, computed, congrArg some ?_, fun e => cells.map (Element.toWord e)⟩
  exact bind_eq_ok.mpr ⟨a, bind_eq_ok.mpr ⟨a, first, Operator.fourAxes_eq four⟩,
    bind_eq_ok.mpr ⟨b, bind_eq_ok.mpr ⟨b, second, Operator.fourAxes_eq four'⟩, bind_eq_ok.mpr ⟨t, made, rfl⟩⟩⟩

theorem featuresGradient_stepwise {c : ConvolutionAttributes} (formed : n.Formed (.featuresGradient c))
    (afforded : (Operator.featuresGradient c).afford (n.inputs.map Node.type) n.shape = .ok ())
    (held : n.shape.Holdable) (supplied : n.Supplied arg args) :
    (Operator.featuresGradient c).Stepwise n.shape arg := by
  obtain ⟨x, y, s, types, same, stated, fits, typed⟩ := Operator.inferFeaturesGradient_eq_ok.mp formed.typed
  obtain ⟨a, b, rfl, first, second, left, right⟩ := supplied.pair types
  have computed := (formed.compute_tensor held (by simp [Kind.polynomial, Operator.kind]) nofun supplied).1
  rw [types, Node.shape_eq typed.symm, ConvolutionAttributes.afford_featuresGradient same stated fits] at afforded
  rw [← Node.shape_eq typed.symm] at stated fits afforded
  rw [← left, ← right] at fits
  obtain ⟨_, _, _, _, _, _, _, _, _, _, four', four⟩ := ConvolutionAttributes.shape_eq_ok fits
  obtain ⟨t, made, cells⟩ :=
    Tensor.featuresGradientBySteps_eq formed.featuresGradient.slides fits afforded.1
  refine ⟨_, _, computed, congrArg some ?_, fun e => cells.map (Element.toWord e)⟩
  exact bind_eq_ok.mpr ⟨a, bind_eq_ok.mpr ⟨a, first, Operator.fourAxes_eq four⟩,
    bind_eq_ok.mpr ⟨b, bind_eq_ok.mpr ⟨b, second, Operator.fourAxes_eq four'⟩,
      bind_eq_ok.mpr ⟨n.shape, by rw [stated]; rfl, bind_eq_ok.mpr ⟨t, made, rfl⟩⟩⟩⟩

theorem filtersGradient_stepwise {c : ConvolutionAttributes} (formed : n.Formed (.filtersGradient c))
    (afforded : (Operator.filtersGradient c).afford (n.inputs.map Node.type) n.shape = .ok ())
    (held : n.shape.Holdable) (supplied : n.Supplied arg args) :
    (Operator.filtersGradient c).Stepwise n.shape arg := by
  obtain ⟨x, y, s, types, same, stated, fits, typed⟩ := Operator.inferFiltersGradient_eq_ok.mp formed.typed
  obtain ⟨a, b, rfl, first, second, left, right⟩ := supplied.pair types
  have computed := (formed.compute_tensor held (by simp [Kind.polynomial, Operator.kind]) nofun supplied).1
  rw [types, ConvolutionAttributes.afford_filtersGradient same, ← right] at afforded
  rw [← Node.shape_eq typed.symm] at stated fits
  rw [← left, ← right] at fits
  obtain ⟨framed, windows, _⟩ := afforded
  obtain ⟨_, _, _, _, _, _, _, _, _, four', _, four⟩ := ConvolutionAttributes.shape_eq_ok fits
  obtain ⟨t, made, cells⟩ := Tensor.filtersGradientBySteps_eq formed.filtersGradient.slides fits framed windows
  refine ⟨_, _, computed, congrArg some ?_, fun e => cells.map (Element.toWord e)⟩
  exact bind_eq_ok.mpr ⟨a, bind_eq_ok.mpr ⟨a, first, Operator.fourAxes_eq four⟩,
    bind_eq_ok.mpr ⟨b, bind_eq_ok.mpr ⟨b, second, Operator.fourAxes_eq four'⟩,
      bind_eq_ok.mpr ⟨n.shape, by rw [stated]; rfl, bind_eq_ok.mpr ⟨t, made, rfl⟩⟩⟩⟩

theorem maxpool_stepwise {dims : Int × Int} (formed : n.Formed (.maxpool dims))
    (inputs : ∀ x ∈ n.inputs, x.shape.Holdable) (supplied : n.Supplied arg args) :
    (Operator.maxpool dims).Stepwise n.shape arg := by
  obtain ⟨x, a, _, _, _, _, down, right, member, first, shape, features, rfl, _, tiles⟩ := supplied.pool formed
  have found : (arg 0 >>= Operator.fourAxes) = .ok a :=
    bind_eq_ok.mpr ⟨a, first, Operator.fourAxes_eq (shape.trans features)⟩
  obtain ⟨t, made, same⟩ := Tensor.maxpoolBySteps_eq (shape.trans features) (shape ▸ inputs x member) tiles
  exact ⟨_, _, bind_eq_ok.mpr ⟨a, found, rfl⟩,
    congrArg some (bind_eq_ok.mpr ⟨a, found, bind_eq_ok.mpr ⟨t, made, rfl⟩⟩), fun e => same.map (Element.toWord e)⟩

theorem maxpoolGradient_stepwise {dims : Int × Int} (formed : n.Formed (.maxpoolGradient dims))
    (afforded : (Operator.maxpoolGradient dims).afford (n.inputs.map Node.type) n.shape = .ok ())
    (inputs : ∀ x ∈ n.inputs, x.shape.Holdable) (supplied : n.Supplied arg args) :
    (Operator.maxpoolGradient dims).Stepwise n.shape arg := by
  obtain ⟨x, g, a, _, _, _, _, down, right, member, first, third, shape, features, rfl, places, pooled, tiles⟩ :=
    supplied.poolGradient formed
  have found : (arg 2 >>= Operator.fourAxes) = .ok a :=
    bind_eq_ok.mpr ⟨a, third, Operator.fourAxes_eq (shape.trans features)⟩
  have met := (Operator.afford_eq_ok.mp afforded).2
  rw [formed.maxpoolGradient_demands (places.trans features), List.forall_mem_cons, List.forall_mem_singleton] at met
  obtain ⟨room, room'⟩ := met
  obtain ⟨t, made, same⟩ :=
    Tensor.maxpoolGradientBySteps_eq (shape.trans features) (shape ▸ inputs x member) tiles pooled room room'
  exact ⟨_, _, bind_eq_ok.mpr ⟨g, first, bind_eq_ok.mpr ⟨a, found, rfl⟩⟩,
    congrArg some (bind_eq_ok.mpr ⟨g, first, bind_eq_ok.mpr ⟨a, found, bind_eq_ok.mpr ⟨t, made, rfl⟩⟩⟩),
    fun e => same.map (Element.toWord e)⟩

theorem argmin_stepwise {axis : Nat} (formed : n.Formed (.argmin axis))
    (admits : (Operator.argmin axis).Admits (n.inputs.map Node.type))
    (afforded : (Operator.argmin axis).afford (n.inputs.map Node.type) n.shape = .ok ())
    (supplied : n.Supplied arg args) : (Operator.argmin axis).Stepwise n.shape arg := by
  obtain ⟨a, first, along, inside, shape⟩ := supplied.argmin formed admits
  have found : (arg 0 >>= Operator.notEmptyAlong [axis]) = .ok a := bind_eq_ok.mpr ⟨a, first, along⟩
  have cells := Tensor.argminBySteps_same inside
  have room : (a.argminBySteps axis).shape.room 8 = .ok () := by
    rw [cells.shape.trans shape.symm]
    exact (Operator.afford_eq_ok.mp afforded).2 _ (List.mem_singleton.mpr rfl)
  have same := cells.map fun place => Int32.ofNat place
  exact ⟨_, _, bind_eq_ok.mpr ⟨a, found, rfl⟩,
    congrArg some (bind_eq_ok.mpr ⟨a, found, bind_eq_ok.mpr ⟨(), room, rfl⟩⟩), fun e => same.map (Element.toWord e)⟩

/-- Step by step or not, an operator makes the same bytes in the same shape. -/
theorem bySteps?_eq {known : Result Computed} {c : Computed} (formed : n.Formed op)
    (admits : op.Admits (n.inputs.map Node.type)) (afforded : op.afford (n.inputs.map Node.type) n.shape = .ok ())
    (held : n.shape.Holdable) (inputs : ∀ x ∈ n.inputs, x.shape.Holdable) (supplied : n.Supplied arg args)
    (found : known = .ok c) (shape : ∀ e, (c e).shape = n.shape)
    (same : op.kind ∈ Kind.stepwise → op.compute n.shape arg = .ok c) :
    ∃ c', (op.bySteps? arg).getD known = .ok c' ∧ ∀ e, (c' e).shape = n.shape ∧ (c' e).bytes = (c e).bytes := by
  have agrees : op.kind ∈ Kind.stepwise → op.Stepwise n.shape arg →
      ∃ c', (op.bySteps? arg).getD known = .ok c' ∧ ∀ e, (c' e).shape = n.shape ∧ (c' e).bytes = (c e).bytes := by
    rintro stepwise ⟨_, c', computed, made, cells⟩
    cases (same stepwise).symm.trans computed
    exact ⟨c', by rw [made]; rfl, fun e => ⟨(cells e).shape.trans (shape e), (cells e).bytes_eq⟩⟩
  have listed : op.kind ∈ Kind.stepwise ∨ op.bySteps? arg = none := by
    cases op with
    | convolution | featuresGradient | filtersGradient | maxpool | maxpoolGradient | argmin =>
      exact .inl (by simp [Kind.stepwise, Kind.sliding, Operator.kind])
    | _ => exact .inr rfl
  rcases listed with stepwise | none
  · refine agrees stepwise ?_
    cases op with
    | convolution => exact formed.convolution_stepwise afforded held supplied
    | featuresGradient => exact formed.featuresGradient_stepwise afforded held supplied
    | filtersGradient => exact formed.filtersGradient_stepwise afforded held supplied
    | maxpool => exact formed.maxpool_stepwise inputs supplied
    | maxpoolGradient => exact formed.maxpoolGradient_stepwise afforded inputs supplied
    | argmin => exact formed.argmin_stepwise admits afforded supplied
    | _ => simp [Kind.stepwise, Kind.sliding, Operator.kind] at stepwise
  · exact ⟨c, by rw [none]; exact found, fun e => ⟨shape e, rfl⟩⟩

end Node.Formed

namespace Node.Formed
variable {n : Node} {op : Operator}

/-- The array of a node is there, has its shape, and has the bytes that its kernel computes. -/
theorem array_eq [Memory] {args : List Bytes} {streams : Streams} {c : Computed} (formed : n.Formed op)
    (admits : op.Admits (n.inputs.map Node.type)) (afforded : op.afford (n.inputs.map Node.type) n.shape = .ok ())
    (held : n.shape.Holdable) (inputs : ∀ x ∈ n.inputs, x.shape.Holdable)
    (sizes : List.Forall₂ (fun x bytes => bytes.size = x.byteSize) n.inputs args)
    (found : op.kind.result n args streams = .ok c) (shape : ∀ e, (c e).shape = n.shape) :
    ∃ c', op.array n args streams = .ok c' ∧ ∀ e, (c' e).shape = n.shape ∧ (c' e).bytes = (c e).bytes := by
  have others : op.kind ∈ Kind.stepwise → op.kind ≠ .uniform ∧ op.kind ≠ .softmax := by
    intro stepwise
    constructor <;> rintro same <;> rw [same] at stepwise <;> exact absurd stepwise (by decide)
  have computed : op.kind ∈ Kind.stepwise → op.kind.computed n args = .ok c := fun stepwise => by
    rw [← found, Kind.result, if_neg (others stepwise).1]
  have whole : op.kind ∈ Kind.stepwise → ∀ arg, op.computeWhole n.shape arg = op.compute n.shape arg := by
    intro stepwise arg
    cases op with
    | softmax => exact absurd rfl (others stepwise).2
    | _ => rfl
  have suited : op.Suited (n.inputs.map Node.type) n.shape := ⟨admits, fun _ => afforded⟩
  unfold Kind.computed at computed
  unfold Operator.array
  dsimp only
  generalize op.kind.elementType? (n.inputs.map Node.type) = common at computed ⊢
  cases common with
  | none =>
    obtain ⟨tensors, supplied⟩ := Node.supplied_argument (α := Double) inputs sizes
    refine formed.bySteps?_eq admits afforded held inputs supplied found shape fun stepwise => ?_
    exact formed.run_of_computedWith suited (computed stepwise)
  | some element =>
    cases element with
    | float32 =>
      obtain ⟨tensors, supplied⟩ := Node.supplied_argument (α := Single) inputs sizes
      refine formed.bySteps?_eq admits afforded held inputs supplied found shape fun stepwise => ?_
      exact formed.run_of_computedWith suited (computed stepwise)
    | int32 =>
      obtain ⟨tensors, supplied⟩ := Node.supplied_argument (α := Int32) inputs sizes
      refine formed.bySteps?_eq admits afforded held inputs supplied found shape fun stepwise => ?_
      exact whole stepwise _ ▸ formed.run_of_computedWith suited (computed stepwise)

end Node.Formed

namespace Sample

/-- Features of two rows, filters without rows, and margins and strides with which no window ends where they do. -/
def twoRows : Node := ⟨⟨0, 0⟩, "placeholder", [], [], ⟨.float32, [1, 1, 2, 3]⟩, none⟩
def rowlessFilters : Node := ⟨⟨0, 1⟩, "placeholder", [], [], ⟨.float32, [1, 1, 0, 2]⟩, none⟩
def wideStrides : ConvolutionAttributes := ⟨(1, 1), (3, 2), none, none⟩
def rowlessConvolution : Node := ⟨⟨0, 2⟩, "convolution", [twoRows, rowlessFilters], wideStrides.params,
    ⟨.float32, [1, 1, 2, 2]⟩, none⟩

theorem rowlessConvolution_formed : rowlessConvolution.Formed (.convolution wideStrides) :=
  ⟨rfl, rfl, rfl, (Kind.window wideStrides).entries, rfl⟩

/-- One cell of more axes than arrays have, and features with margins for which there is no room. -/
def floatOf65Axes : Node := ⟨⟨0, 0⟩, "placeholder", [], [], ⟨.float32, List.replicate 65 1⟩, none⟩
def negatedOf65Axes : Node := ⟨⟨0, 1⟩, "neg", [floatOf65Axes], [], ⟨.float32, List.replicate 65 1⟩, none⟩
def pixel : Node := ⟨⟨0, 0⟩, "placeholder", [], [], ⟨.float32, [1, 1, 1, 1]⟩, none⟩
def vastMargins : ConvolutionAttributes := ⟨(2 ^ 31, 2 ^ 31), (2 ^ 40, 2 ^ 40), none, none⟩
def vastMarginsConvolution : Node := ⟨⟨0, 1⟩, "convolution", [pixel, pixel], vastMargins.params,
    ⟨.float32, [1, 1, 1, 1]⟩, none⟩

end Sample
end TensorDag
