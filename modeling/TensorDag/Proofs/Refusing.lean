import TensorDag.Proofs.Computing

/-!
Kernels that refuse. A node that an own kernel has computed is suited for kernels: it takes an extremum of some
elements, it pads some axes, and what its windows ask for could be had.
-/
namespace TensorDag
open Result (bind_eq_ok)

namespace Param

/-- Margins of four axes are those given. -/
theorem marginsIn_window {rank : Nat} {p q : Int} {margins : List (Int × Int)}
    (found : marginsIn rank [(.int 0, .int 0), (.int 0, .int 0), (.int p, .int p), (.int q, .int q)] = .ok margins) :
    margins = [(0, 0), (0, 0), (p, p), (q, q)] := by
  obtain ⟨_, _, found⟩ := bind_eq_ok.mp found
  split at found
  · split at found
    · cases found
    · obtain ⟨read, made, found⟩ := bind_eq_ok.mp found
      cases made
      dsimp only at found
      split at found
      · cases found
      · split at found
        · rename_i short
          cases short
        · split at found <;> cases found
          rfl
  · split at found <;> cases found

end Param

namespace Application
variable {α : Type} {c : ConvolutionAttributes} {features : Shape}

theorem windows_room [Memory] {window : List Param} {padding : Int × Int} {stride : Param}
    {made : ConvolutionAttributes × List Nat} (found : windows features window (.ofPair padding) stride = .ok made) :
    Operator.roomFor features padding = .ok () := by
  obtain ⟨sides, read, found⟩ := bind_eq_ok.mp found
  cases read
  obtain ⟨steps, _, found⟩ := bind_eq_ok.mp found
  obtain ⟨margins, placed, found⟩ := bind_eq_ok.mp found
  cases Param.marginsIn_window placed
  obtain ⟨_, room, _⟩ := bind_eq_ok.mp found
  exact room

theorem sizeWithin_eq_ok {size : Nat} {margin : Int} {made : Int × Int}
    (found : sizeWithin (.int size) (.int margin) = .ok made) : made = ((size : Int), margin) := by
  obtain ⟨_, read, found⟩ := bind_eq_ok.mp found
  cases read
  obtain ⟨_, read, found⟩ := bind_eq_ok.mp found
  cases read
  split at found <;> cases found
  rfl

theorem dimension_eq_ok {size size' : Nat} (found : (Param.int size).dimension = .ok size') : size' = size := by
  have read : (Param.int size).dimension = if 0 ≤ (size : Int) ∧ (size : Int) < Shape.limit then
      .ok (size : Int).toNat else Result.fault .notAddressable := rfl
  rw [read] at found
  by_cases fits : 0 ≤ (size : Int) ∧ (size : Int) < Shape.limit
  · rw [if_pos fits] at found
    exact (Except.ok.inj found).symm
  · rw [if_neg fits] at found
    cases found

end Application

namespace Kind
variable {α : Type} {kind : Kind} {ps : Params} {shape : Shape} {arg : Nat → Result (Tensor α)} {a : Application α}
  {c : ConvolutionAttributes}

theorem convolution_room [Memory] (padded : ps.get "padding" = .ok (.ofPair c.padding))
    (applied : Kind.convolution.application ps shape arg = .ok a) :
    ∃ x, arg 0 = .ok x ∧ Operator.roomFor x.shape c.padding = .ok () := by
  obtain ⟨x, first, applied⟩ := bind_eq_ok.mp applied
  obtain ⟨filters, _, applied⟩ := bind_eq_ok.mp applied
  obtain ⟨padding, read, applied⟩ := bind_eq_ok.mp applied
  cases padded.symm.trans read
  obtain ⟨stride, _, applied⟩ := bind_eq_ok.mp applied
  obtain ⟨_, slid, _⟩ := bind_eq_ok.mp applied
  exact ⟨x, first, Application.windows_room slid⟩

theorem filtersGradient_room [Memory] (padded : ps.get "padding" = .ok (.ofPair c.padding))
    (applied : Kind.filtersGradient.application ps shape arg = .ok a) :
    ∃ x, arg 1 = .ok x ∧ Operator.roomFor x.shape c.padding = .ok () := by
  obtain ⟨g, _, applied⟩ := bind_eq_ok.mp applied
  obtain ⟨x, second, applied⟩ := bind_eq_ok.mp applied
  obtain ⟨sizes, _, applied⟩ := bind_eq_ok.mp applied
  obtain ⟨items, _, applied⟩ := bind_eq_ok.mp applied
  obtain ⟨padding, read, applied⟩ := bind_eq_ok.mp applied
  cases padded.symm.trans read
  obtain ⟨stride, _, applied⟩ := bind_eq_ok.mp applied
  obtain ⟨_, slid, _⟩ := bind_eq_ok.mp applied
  exact ⟨x, second, Application.windows_room slid⟩

/-- The features that a gradient is spread over have room with their margins. -/
theorem featuresGradient_room [Memory] {batch channels height width : Nat} (slides : Slides c)
    (padded : ps.get "padding" = .ok (.ofPair c.padding))
    (sized : ps.get "features_shape" = .ok (.dims [batch, channels, height, width]))
    (applied : Kind.featuresGradient.application ps shape arg = .ok a) :
    Operator.roomFor [batch, channels, height, width] c.padding = .ok () := by
  obtain ⟨g, _, applied⟩ := bind_eq_ok.mp applied
  obtain ⟨filters, _, applied⟩ := bind_eq_ok.mp applied
  obtain ⟨_, read, applied⟩ := bind_eq_ok.mp applied
  cases sized.symm.trans read
  obtain ⟨_, items, applied⟩ := bind_eq_ok.mp applied
  have four : Application.fourItems (.dims [batch, channels, height, width]) =
      .ok (.int batch, .int channels, .int height, .int width) := rfl
  cases four.symm.trans items
  obtain ⟨_, read, applied⟩ := bind_eq_ok.mp applied
  cases padded.symm.trans read
  obtain ⟨_, sides, applied⟩ := bind_eq_ok.mp applied
  cases sides
  obtain ⟨stride, _, applied⟩ := bind_eq_ok.mp applied
  obtain ⟨steps, _, applied⟩ := bind_eq_ok.mp applied
  dsimp only at applied
  split at applied
  · obtain ⟨_, tall, applied⟩ := bind_eq_ok.mp applied
    cases Application.sizeWithin_eq_ok tall
    obtain ⟨_, wide, applied⟩ := bind_eq_ok.mp applied
    cases Application.sizeWithin_eq_ok wide
    obtain ⟨_, batches, applied⟩ := bind_eq_ok.mp applied
    cases Application.dimension_eq_ok batches
    obtain ⟨_, depths, applied⟩ := bind_eq_ok.mp applied
    cases Application.dimension_eq_ok depths
    obtain ⟨_, room, _⟩ := bind_eq_ok.mp applied
    obtain ⟨upper, lower⟩ := slides.margins
    have rows : ((height : Int) + 2 * c.padding.1).toNat = height + 2 * c.padding.1.toNat := by omega
    have columns : ((width : Int) + 2 * c.padding.2).toNat = width + 2 * c.padding.2.toNat := by omega
    rw [rows, columns] at room
    exact room
  · cases applied

end Kind

namespace Operator
variable {α : Type} {op : Operator} {shape : Shape} {arg : Nat → Result (Tensor α)} {c : Computed}

def extrema : List Kind := [.maxElement, .argmin, .softmax]

theorem some_of_notEmptyAlong (axes : Shape → List Nat) {s : Shape} {a b : Tensor α} (same : a.shape = s)
    (found : notEmptyAlong (axes a.shape) a = .ok b) : Shape.volume (Shape.select s (axes s)) ≠ 0 := by
  subst same
  intro none
  rw [notEmptyAlong, if_pos none] at found
  cases found

/-- An extremum that was computed is one of some elements. -/
theorem admits_of_compute [Element α] {types : List TensorType} (extremum : op.kind ∈ extrema)
    (source : ∀ a, arg 0 = .ok a → a.shape = (Kind.source types).shape) (returned : op.compute shape arg = .ok c) :
    op.Admits types := by
  cases op with
  | maxElement axes =>
    obtain ⟨_, found, _⟩ := bind_eq_ok.mp returned
    obtain ⟨a, first, some⟩ := bind_eq_ok.mp found
    exact some_of_notEmptyAlong (fun _ => axes) (source a first) some
  | argmin axis =>
    obtain ⟨_, found, _⟩ := bind_eq_ok.mp returned
    obtain ⟨a, first, some⟩ := bind_eq_ok.mp found
    exact some_of_notEmptyAlong (fun _ => [axis]) (source a first) some
  | softmax =>
    obtain ⟨a, first, found⟩ := bind_eq_ok.mp returned
    obtain ⟨_, some, _⟩ := bind_eq_ok.mp found
    exact some_of_notEmptyAlong (fun s => [s.length - 1]) (source a first) some
  | _ => simp [extrema, kind] at extremum

theorem admits_of_computeWhole {types : List TensorType} {arg : Nat → Result (Tensor Int32)}
    (extremum : op.kind ∈ extrema) (source : ∀ a, arg 0 = .ok a → a.shape = (Kind.source types).shape)
    (returned : op.computeWhole shape arg = .ok c) : op.Admits types := by
  cases op with
  | softmax =>
    obtain ⟨a, first, found⟩ := bind_eq_ok.mp returned
    obtain ⟨_, some, _⟩ := bind_eq_ok.mp found
    exact some_of_notEmptyAlong (fun s => [s.length - 1]) (source a first) some
  | maxElement | argmin =>
    exact admits_of_compute extremum source (show Operator.compute _ shape arg = .ok c from returned)
  | _ => simp [extrema, kind] at extremum

end Operator

namespace Node.Formed
variable {α : Type} {n : Node} {op : Operator} {arg : Nat → Result (Tensor α)} {c : ConvolutionAttributes}

theorem pad_admits {before after : List Int} (formed : n.Formed (.pad before after)) (axes : before ≠ []) :
    (Operator.pad before after).Admits (n.inputs.map Node.type) := by
  obtain ⟨t, types, ⟨sizes, _⟩, _⟩ := Operator.inferPad_eq_ok.mp formed.typed
  rw [types]
  intro scalar
  have none : t.shape = [] := scalar
  rw [TensorType.rank, none] at sizes
  exact axes (List.eq_nil_of_length_eq_zero sizes)

theorem fourAxes_same {a b : Tensor α} (four : Operator.fourAxes a = .ok b) : a = b := by
  unfold Operator.fourAxes at four
  split at four <;> cases four
  rfl

theorem windowFits_of_room [Memory] {features : Shape} {batch channels height width : Nat} (slides : Kind.Slides c)
    (four : features = [batch, channels, height, width]) (room : Operator.roomFor features c.padding = .ok ()) :
    Operator.windowFits c = true := by
  subst four
  exact Operator.windowFits_of_framed slides rfl room

theorem fits_of_windowFits (formed : n.Formed op) (sliding : op.kind ∈ Kind.sliding)
    (fits : ∀ c, op = .convolution c ∨ op = .featuresGradient c ∨ op = .filtersGradient c →
      Operator.windowFits c = true) :
    op.fits (n.inputs.map Node.type) n.type = true := by
  unfold Operator.fits
  rw [Bool.and_eq_true]
  refine ⟨?_, by rw [formed.typed]; exact decide_eq_true rfl⟩
  cases op with
  | convolution c => exact fits c (.inl rfl)
  | featuresGradient c => exact fits c (.inr (.inl rfl))
  | filtersGradient c => exact fits c (.inr (.inr rfl))
  | _ => simp [Kind.sliding, Operator.kind] at sliding

/-- No other application of a convolution is made where that of its operator is not. -/
theorem fits_of_application [Memory] {a : Application α} (formed : n.Formed op) (sliding : op.kind ∈ Kind.sliding)
    (shapes : ∀ place a, arg place = .ok a → ∃ x, n.inputs[place]? = some x ∧ a.shape = x.shape)
    (applied : op.kind.application n.params n.shape arg = .ok a) : op.fits (n.inputs.map Node.type) n.type = true := by
  refine formed.fits_of_windowFits sliding fun c same => ?_
  rcases same with rfl | rfl | rfl
  · obtain ⟨_, _, _, types, _, fits, _⟩ := Operator.inferConvolution_eq_ok.mp formed.typed
    obtain ⟨_, _, _, _, _, _, _, _, _, four, _, _⟩ := ConvolutionAttributes.shape_eq_ok fits
    obtain ⟨features, filters, inputs, rfl, -⟩ := Gradient.inputs_two types
    obtain ⟨x, first, room⟩ := Kind.convolution_room formed.convolution.padding applied
    obtain ⟨_, listed, same⟩ := shapes 0 x first
    rw [inputs] at listed
    cases listed
    exact windowFits_of_room formed.convolution.slides (same.trans four) room
  · obtain ⟨_, _, s, _, _, sized, fits, _⟩ := Operator.inferFeaturesGradient_eq_ok.mp formed.typed
    obtain ⟨_, _, _, _, _, _, _, _, _, rfl, _, _⟩ := ConvolutionAttributes.shape_eq_ok fits
    have convolves := formed.featuresGradient
    exact windowFits_of_room convolves.slides rfl
      (Kind.featuresGradient_room convolves.slides convolves.padding (convolves.features sized) applied)
  · obtain ⟨_, _, _, types, _, _, fits, _⟩ := Operator.inferFiltersGradient_eq_ok.mp formed.typed
    obtain ⟨_, _, _, _, _, _, _, _, _, four, _, _⟩ := ConvolutionAttributes.shape_eq_ok fits
    obtain ⟨gradient, features, inputs, -, rfl⟩ := Gradient.inputs_two types
    obtain ⟨x, second, room⟩ := Kind.filtersGradient_room formed.filtersGradient.padding applied
    obtain ⟨_, listed, same⟩ := shapes 1 x second
    rw [inputs] at listed
    cases listed
    exact windowFits_of_room formed.filtersGradient.slides (same.trans four) room

/-- What a convolution or one of its gradients has computed is of the shape of its node. -/
theorem sliding_shape [Element α] {computed : Computed} (formed : n.Formed op) (sliding : op.kind ∈ Kind.sliding)
    (shapes : ∀ place a, arg place = .ok a → ∃ x, n.inputs[place]? = some x ∧ a.shape = x.shape)
    (ran : op.compute n.shape arg = .ok computed) (e : ElementType) : (computed e).shape = n.shape := by
  cases op with
  | convolution c =>
    obtain ⟨_, _, s, types, _, fits, typed⟩ := Operator.inferConvolution_eq_ok.mp formed.typed
    obtain ⟨features, filters, inputs, rfl, rfl⟩ := Gradient.inputs_two types
    obtain ⟨t, made, rfl⟩ := Result.map_eq_ok.mp ran
    obtain ⟨x, first, made⟩ := bind_eq_ok.mp made
    obtain ⟨x', first, four⟩ := bind_eq_ok.mp first
    obtain ⟨f, second, made⟩ := bind_eq_ok.mp made
    obtain ⟨f', second, four'⟩ := bind_eq_ok.mp second
    obtain ⟨s', slid, made⟩ := bind_eq_ok.mp made
    cases fourAxes_same four
    cases fourAxes_same four'
    obtain ⟨_, listed, same⟩ := shapes 0 _ first
    obtain ⟨_, listed', same'⟩ := shapes 1 _ second
    rw [inputs] at listed listed'
    cases listed
    cases listed'
    cases made
    rw [same, same'] at slid
    cases slid.symm.trans fits
    exact (Node.shape_eq typed.symm).symm
  | featuresGradient c =>
    obtain ⟨_, _, s, _, _, stated, _, typed⟩ := Operator.inferFeaturesGradient_eq_ok.mp formed.typed
    obtain ⟨t, made, rfl⟩ := Result.map_eq_ok.mp ran
    obtain ⟨_, _, made⟩ := bind_eq_ok.mp made
    obtain ⟨_, _, made⟩ := bind_eq_ok.mp made
    rw [stated] at made
    cases made
    exact (Node.shape_eq typed.symm).symm
  | filtersGradient c =>
    obtain ⟨_, _, s, _, _, stated, _, typed⟩ := Operator.inferFiltersGradient_eq_ok.mp formed.typed
    obtain ⟨t, made, rfl⟩ := Result.map_eq_ok.mp ran
    obtain ⟨_, _, made⟩ := bind_eq_ok.mp made
    obtain ⟨_, _, made⟩ := bind_eq_ok.mp made
    rw [stated] at made
    cases made
    exact (Node.shape_eq typed.symm).symm
  | _ => simp [Kind.sliding, Operator.kind] at sliding

/-- Scalars are padded by no application. -/
theorem pad_admits_of_application [Memory] {before after : List Int} {a : Application α}
    (formed : n.Formed (.pad before after)) (applied : Kind.pad.application n.params n.shape arg = .ok a) :
    (Operator.pad before after).Admits (n.inputs.map Node.type) := by
  obtain ⟨first, second⟩ := formed.pad_margins
  refine formed.pad_admits ?_
  rintro rfl
  obtain ⟨pairs, listed, applied⟩ := bind_eq_ok.mp applied
  obtain ⟨_, read, listed⟩ := bind_eq_ok.mp listed
  cases first.symm.trans read
  obtain ⟨_, read, listed⟩ := bind_eq_ok.mp listed
  cases second.symm.trans read
  obtain ⟨_, items, listed⟩ := bind_eq_ok.mp listed
  cases items
  obtain ⟨_, items, listed⟩ := bind_eq_ok.mp listed
  cases items
  cases listed
  obtain ⟨x, _, padded⟩ := bind_eq_ok.mp applied
  cases padded

/-- A node whose operator, or another application of its kind, was computed is suited. -/
theorem suited_of_computedWith [Memory] {run : Operator → Shape → (Nat → Result (Tensor α)) → Result Computed}
    {computed : Computed} (formed : n.Formed op)
    (shapes : ∀ place a, arg place = .ok a → ∃ x, n.inputs[place]? = some x ∧ a.shape = x.shape)
    (extremum : op.kind ∈ Operator.extrema → run op n.shape arg = .ok computed → op.Admits (n.inputs.map Node.type))
    (shaped : op.kind ∈ Kind.sliding → run op n.shape arg = .ok computed → (computed n.elementType).shape = n.shape)
    (returned : op.kind.computedWith n arg (Operator.runAt n run) = .ok computed) :
    op.Suited (n.inputs.map Node.type) n.shape := by
  simp only [Kind.computedWith, formed.attributes] at returned
  by_cases sliding : op.kind ∈ Kind.sliding
  · have fits : op.fits (n.inputs.map Node.type) n.type = true := by
      by_contra other
      rw [if_neg other] at returned
      obtain ⟨a, applied, _⟩ := bind_eq_ok.mp returned
      exact other (formed.fits_of_application sliding shapes applied)
    rw [if_pos fits] at returned
    obtain ⟨ran, afforded⟩ := Operator.runAt_eq_ok.mp returned
    refine ⟨?_, fun _ => shaped sliding ran ▸ afforded⟩
    cases op with
    | convolution | featuresGradient | filtersGradient => trivial
    | _ => simp [Kind.sliding, Operator.kind] at sliding
  · refine ⟨?_, fun slides => absurd slides sliding⟩
    cases op with
    | maxElement | argmin | softmax =>
      -- extrema are always computed by their own operators
      rw [if_pos (formed.fits (by simp [Operator.kind]) fun slides => absurd slides sliding)] at returned
      exact extremum (by simp [Operator.extrema, Operator.kind]) (Operator.runAt_eq_ok.mp returned).1
    | pad before after =>
      by_cases fits : (Operator.pad before after).fits (n.inputs.map Node.type) n.type = true
      · refine formed.pad_admits ?_
        rintro rfl
        simp [Operator.fits] at fits
      · rw [if_neg fits] at returned
        obtain ⟨a, applied, _⟩ := bind_eq_ok.mp returned
        exact formed.pad_admits_of_application applied
    | _ => trivial

end Node.Formed

theorem argument_shape {α : Type} [Element α] {inputs : List Node} {args : List Bytes} {place : Nat} {a : Tensor α}
    (read : argument inputs args place = .ok a) : ∃ x, inputs[place]? = some x ∧ a.shape = x.shape := by
  unfold argument at read
  split at read
  · rename_i bytes x _ listed
    split at read
    · cases read
    · split at read <;> cases read
      exact ⟨x, listed, rfl⟩
  · cases read

theorem argument_source {α : Type} [Element α] {inputs : List Node} {args : List Bytes} {a : Tensor α}
    (read : argument inputs args 0 = .ok a) : a.shape = (Kind.source (inputs.map Node.type)).shape := by
  obtain ⟨x, first, shape⟩ := argument_shape read
  cases inputs with
  | nil => cases first
  | cons y rest =>
    cases first
    exact shape

/-- A node that the host's kernel has computed is suited. -/
theorem Node.Formed.suited_of_run [Memory] {n : Node} {op : Operator} {args : List Bytes} {output : Buffer}
    {streams : Streams} {written : Option Bytes} (formed : n.Formed op)
    (returned : ((Kernel.host op.kind).run n args output streams).1 = .ok written) :
    op.Suited (n.inputs.map Node.type) n.shape := by
  by_cases demanding : op.kind ∈ Kind.demanding
  · have sampling : op.kind ≠ .uniform := fun same => absurd (same ▸ demanding) (by decide)
    simp only [Kernel.run] at returned
    obtain ⟨_, stored, _⟩ := Result.map_eq_ok.mp returned
    obtain ⟨c, computed, _⟩ := bind_eq_ok.mp stored
    unfold Kind.computed at computed
    split at computed
    · have whole : op.kind ∈ Kind.sliding → ∀ s (arg : Nat → Result (Tensor Int32)),
          op.computeWhole s arg = op.compute s arg := by
        intro sliding _ _
        cases op with
        | softmax => simp [Kind.sliding, Operator.kind] at sliding
        | _ => rfl
      exact formed.suited_of_computedWith (fun _ _ => argument_shape)
        (fun extremum => Operator.admits_of_computeWhole extremum fun _ => argument_source)
        (fun sliding ran => formed.sliding_shape sliding (fun _ _ => argument_shape) (whole sliding _ _ ▸ ran) _)
        computed
    · exact formed.suited_of_computedWith (fun _ _ => argument_shape)
        (fun extremum => Operator.admits_of_compute extremum fun _ => argument_source)
        (fun sliding ran => formed.sliding_shape sliding (fun _ _ => argument_shape) ran _) computed
    · exact formed.suited_of_computedWith (fun _ _ => argument_shape)
        (fun extremum => Operator.admits_of_compute extremum fun _ => argument_source)
        (fun sliding ran => formed.sliding_shape sliding (fun _ _ => argument_shape) ran _) computed
  · exact Operator.suited_of_kind demanding

end TensorDag
