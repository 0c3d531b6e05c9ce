import TensorDag.Proofs.Restoring

/-!
Gradient rules of convolutions, pools and softmax return, and so does the rule of every kind.
-/
namespace TensorDag

/-- A node of one of the two pool kinds. -/
structure Node.Pools (n : Node) (dims : Int × Int) : Prop where
  stated : n.params.get "dims" = .ok (.ofPair dims)
  windows : 1 ≤ dims.1 ∧ 1 ≤ dims.2

namespace Node.Formed
variable {n : Node} {dims : Int × Int}

private theorem pools_of {name : String} {wrap : Int × Int → Operator} (injective : ∀ {p q}, wrap p = wrap q → p = q)
    {es : Entries} (attributes : (do return wrap (← n.params.need "dims" Param.pair?)) = Except.ok (wrap dims))
    (spelled : (do return wrap (← Kind.spellPool name es)) = Except.ok (wrap dims)) : n.Pools dims := by
  obtain ⟨read, needed, made⟩ := Result.bind_eq_ok.mp attributes
  obtain ⟨meant, written, same⟩ := Result.bind_eq_ok.mp spelled
  cases injective (Except.ok.inj made)
  cases injective (Except.ok.inj same)
  unfold Kind.spellPool at written
  split at written
  · cases written
  · exact ⟨Params.get_pair needed, Value.pair_minimum written⟩

theorem maxpool (formed : n.Formed (.maxpool dims)) : n.Pools dims := by
  obtain ⟨es, spelled⟩ := formed.spelled
  exact pools_of Operator.maxpool.inj formed.attributes spelled

theorem maxpoolGradient (formed : n.Formed (.maxpoolGradient dims)) : n.Pools dims := by
  obtain ⟨es, spelled⟩ := formed.spelled
  exact pools_of Operator.maxpoolGradient.inj formed.attributes spelled

end Node.Formed

/-- Windows of some sizes that lie side by side within features of two axes. -/
structure Tiles (down right tall wide height width : Nat) : Prop where
  sizes : 1 ≤ down ∧ 1 ≤ right
  counts : 1 ≤ tall ∧ 1 ≤ wide
  rows : tall * down ≤ height
  columns : wide * right ≤ width

namespace Tiles
variable {batch channels height width tall wide down right : Nat} (tiles : Tiles down right tall wide height width)
include tiles

theorem covered (some : 1 ≤ batch) (some' : 1 ≤ channels) : List.Forall₂ (fun size dim => 1 ≤ size ∧ size ≤ dim)
    [batch, channels, tall * down, wide * right] [batch, channels, height, width] := by
  obtain ⟨⟨down_pos, right_pos⟩, ⟨tall_pos, wide_pos⟩, rows, columns⟩ := tiles
  have tall_some : 1 ≤ tall * down := Nat.mul_pos tall_pos down_pos
  have wide_some : 1 ≤ wide * right := Nat.mul_pos wide_pos right_pos
  exact .cons ⟨some, le_refl _⟩ (.cons ⟨some', le_refl _⟩ (.cons ⟨tall_some, rows⟩ (.cons ⟨wide_some, columns⟩ .nil)))

theorem covered_bounded [Memory] {full : Prop} (bounded : Shape.Bounded full [batch, channels, height, width]) :
    Shape.Bounded full [batch, channels, tall * down, wide * right] := by
  obtain ⟨sizes, counts, rows, columns⟩ := tiles
  refine bounded.resized (fun asked => ?_) bounded.axes (Shape.volume_filled_le ?_)
  · have positive := bounded.positive asked
    have covered : 1 ≤ tall * down ∧ 1 ≤ wide * right :=
      ⟨Nat.mul_pos counts.1 sizes.1, Nat.mul_pos counts.2 sizes.2⟩
    simp only [List.forall_mem_cons] at positive ⊢
    exact ⟨positive.1, positive.2.1, covered.1, covered.2, by simp⟩
  · exact .cons (.inl (le_refl _)) (.cons (.inl (le_refl _)) (.cons (.inl rows) (.cons (.inl columns) .nil)))

/-- One number for each place within a window takes no more than the features. -/
theorem places_limited [Memory] (limited : Shape.Limited [batch, channels, height, width]) : Shape.Limited
    [down * right] := by
  obtain ⟨sizes, counts, rows, columns⟩ := tiles
  refine ⟨show 1 ≤ Shape.maxStretched by decide, le_trans (Nat.mul_le_mul_left 8 ?_) limited.room⟩
  have tall : down ≤ max height 1 := by
    have := Nat.le_mul_of_pos_left down counts.1
    omega
  have wide : right ≤ max width 1 := by
    have := Nat.le_mul_of_pos_left right counts.2
    omega
  have some : 1 ≤ down * right := Nat.mul_pos sizes.1 sizes.2
  simp only [Shape.volume_filled_cons, Nat.max_eq_left some]
  calc down * right * Shape.volume (Shape.filled []) ≤ max height 1 * max width 1 * Shape.volume (Shape.filled []) :=
        Nat.mul_le_mul_right _ (Nat.mul_le_mul tall wide)
    _ ≤ max batch 1 * max channels 1 * (max height 1 * max width 1 * Shape.volume (Shape.filled [])) :=
        Nat.le_mul_of_pos_left _ (Nat.mul_pos (by omega) (by omega))
    _ = _ := by ring

end Tiles

theorem Operator.sliceDims_front {sizes s : Shape}
    (fits : List.Forall₂ (fun size dim => 1 ≤ size ∧ size ≤ dim) sizes s) :
    sliceDims (List.replicate sizes.length 0) (sizes.map Int.ofNat) s = .ok sizes := by
  induction fits with
  | nil => rfl
  | @cons size dim sizes s here _ ih =>
    have bounds : (0 : Int) ≤ 0 ∧ 0 < Int.ofNat size ∧ Int.ofNat size ≤ dim := by
      simp only [Int.ofNat_eq_natCast]
      omega
    rw [List.length_cons, List.replicate_succ, List.map_cons, sliceDims, if_pos bounds, ih, Int.sub_zero]
    rfl

/-- Features, and as many cells along their last two axes as windows fit into them. -/
theorem pooledShape_eq_ok {dims : Int × Int} {features pooled : Shape} (windows : 1 ≤ dims.1 ∧ 1 ≤ dims.2)
    (fits : pooledShape dims features = .ok pooled) :
    ∃ batch channels height width down right : Nat, dims = (↑down, ↑right) ∧
      features = [batch, channels, height, width] ∧ pooled = [batch, channels, height / down, width / right] ∧
        Tiles down right (height / down) (width / right) height width := by
  obtain ⟨shape, found, made⟩ := Result.bind_eq_ok.mp fits
  cases made
  match features with
  | [batch, channels, height, width] =>
    obtain ⟨⟨down, first⟩, ⟨right, second⟩⟩ : (∃ down : Nat, dims.1 = down) ∧ ∃ right : Nat, dims.2 = right :=
      ⟨Int.eq_ofNat_of_zero_le (by omega), Int.eq_ofNat_of_zero_le (by omega)⟩
    obtain rfl : dims = (↑down, ↑right) := Prod.ext first second
    have some : ¬((down : Int) = 0 ∨ (right : Int) = 0) := by omega
    have divides : ∀ i j : Nat, Int.fdiv i j = (i / j : Nat) := fun i j => by
      rw [Int.fdiv_eq_ediv_of_nonneg _ (Int.natCast_nonneg j), Int.natCast_ediv]
    simp only [poolShape, List.map_cons, List.map_nil, if_neg some, Int.ofNat_eq_natCast, divides] at found
    split at found
    · cases found
    · rename_i large
      cases found
      exact ⟨batch, channels, height, width, down, right, rfl, rfl, rfl,
        ⟨by omega, by omega⟩, ⟨by omega, by omega⟩, Nat.div_mul_le_self .., Nat.div_mul_le_self ..⟩
  | [] | [_] | [_, _] | [_, _, _] | _ :: _ :: _ :: _ :: _ :: _ => cases found

namespace Gradient
open Building (Yields)
variable [Memory] {full operable : Prop} {held : List Node} {n g x : Node} {c : ConvolutionAttributes}
    {dims : Int × Int}

/-! Convolutions. -/

/-- Features `x`, filters `f`, and a node `r` of the type of their convolution. -/
structure Convolved (operable : Prop) (held : List Node) (c : ConvolutionAttributes) (x f r : Node) : Prop where
  slides : Kind.Slides c
  features : x ∈ held
  filters : f ∈ held
  result : r ∈ held
  slid : c.shape x.shape f.shape = .ok r.shape
  typed : f.elementType = x.elementType
  typed' : r.elementType = x.elementType
  spacious : operable → c.Spacious x.shape f.shape r.shape

namespace Convolved
variable {f r : Node}

theorem later (convolved : Convolved operable held c x f r) (m : Node) : Convolved operable (m :: held) c x f r :=
  ⟨convolved.slides, .tail m convolved.features, .tail m convolved.filters, .tail m convolved.result, convolved.slid,
    convolved.typed, convolved.typed', convolved.spacious⟩

theorem convolution (convolved : Convolved operable held c x f r) :
    Yields full operable held .node (·.type = r.type) (Building.convolution (.node x) (.node f) (Kind.window c)) := by
  obtain ⟨slides, features, filters, result, slid, typed, typed', spacious⟩ := convolved
  refine .known result fun bounded => ?_
  exact (Yields.convolution slides features filters typed slid bounded.shape spacious).weaken
    fun _ made => Node.type_eq made typed'.symm

theorem featuresGradient (convolved : Convolved operable held c x f r) :
    Yields full operable held .node (·.type = x.type)
      (Building.featuresGradient (.node r) (.node f) (.dims x.shape) (Kind.window c)) := by
  obtain ⟨slides, features, filters, result, slid, typed, typed', spacious⟩ := convolved
  refine .known features fun bounded => ?_
  exact (Yields.featuresGradient slides result filters (typed.trans typed'.symm) slid bounded.shape spacious).weaken
    fun _ made => Node.type_eq made typed'

theorem filtersGradient (convolved : Convolved operable held c x f r) :
    Yields full operable held .node (·.type = f.type)
      (Building.filtersGradient (.node r) (.node x) (.dims f.shape) (Kind.window c)) := by
  obtain ⟨slides, features, filters, result, slid, typed, typed', spacious⟩ := convolved
  refine .known filters fun bounded => ?_
  exact (Yields.filtersGradient slides result features typed'.symm slid bounded.shape spacious).weaken
    fun _ made => Node.type_eq made (typed'.trans typed.symm)

end Convolved

theorem contributes_convolution (handed : Handed operable held n g (.convolution c)) :
    Contributes full operable held n (convolutionRule n (.node g)) := by
  obtain ⟨_, _, s, types, same, fits, typed⟩ := Operator.inferConvolution_eq_ok.mp handed.formed.typed
  obtain ⟨features, filters, inputs, rfl, rfl⟩ := inputs_two types
  have convolves := handed.formed.convolution
  have result := handed.typed.trans typed.symm
  have second : filters ∈ held := handed.inputs filters (by simp [inputs])
  refine .certain handed.own fun able => .known second fun bounded => ?_
  have spacious : operable → c.Spacious features.shape filters.shape s := fun asked => by
    have afforded := ((able asked).suited _ handed.formed).afforded (by simp [Kind.sliding, Operator.kind])
    rw [types, Node.shape_eq typed.symm, ConvolutionAttributes.afford_convolution same fits] at afforded
    obtain ⟨framed, windows, products⟩ := afforded
    exact .of_convolution convolves.slides fits framed windows products bounded.shape.toLimited
  have convolved : Convolved operable held c features filters g :=
    ⟨convolves.slides, handed.inputs features (by simp [inputs]), second, handed.gradient,
      Node.shape_eq result ▸ fits, same, Node.elementType_eq result, Node.shape_eq result ▸ spacious⟩
  rw [convolutionRule, twoInputs_eq inputs, windowOf_eq convolves]
  refine convolved.featuresGradient.step fun first typed => ?_
  refine (convolved.later first).filtersGradient.step fun second typed' => ?_
  exact contributes_two inputs (by simp) (by simp) typed typed'

theorem contributes_featuresGradient (handed : Handed operable held n g (.featuresGradient c)) :
    Contributes full operable held n (featuresGradientRule n (.node g)) := by
  obtain ⟨_, _, s, types, same, sized, fits, typed⟩ := Operator.inferFeaturesGradient_eq_ok.mp handed.formed.typed
  obtain ⟨gradient, filters, inputs, rfl, rfl⟩ := inputs_two types
  have convolves := handed.formed.featuresGradient
  have result := handed.typed.trans typed.symm
  have element : g.elementType = gradient.elementType := Node.elementType_eq result
  refine .certain handed.own fun able => ?_
  have spacious : operable → c.Spacious s filters.shape gradient.shape := fun asked => by
    have afforded := ((able asked).suited _ handed.formed).afforded (by simp [Kind.sliding, Operator.kind])
    rw [types, Node.shape_eq typed.symm, ConvolutionAttributes.afford_featuresGradient same sized fits] at afforded
    have answered : c.Countable (c.features.getD []) filters.shape gradient.shape := by
      have answered := handed.answered (.inl asked)
      rwa [inputs] at answered
    rw [sized] at answered
    exact .of_countable fits afforded.1 answered
  have convolved : Convolved operable held c g filters gradient :=
    ⟨convolves.slides, handed.gradient, handed.inputs filters (by simp [inputs]),
      handed.inputs gradient (by simp [inputs]), Node.shape_eq result ▸ fits, same.trans element.symm, element.symm,
      Node.shape_eq result ▸ spacious⟩
  rw [featuresGradientRule, twoInputs_eq inputs, windowOf_eq convolves]
  refine convolved.convolution.step fun first typed => ?_
  refine (convolved.later first).filtersGradient.step fun second typed' => ?_
  exact contributes_two inputs (by simp) (by simp) typed typed'

theorem contributes_filtersGradient (handed : Handed operable held n g (.filtersGradient c)) :
    Contributes full operable held n (filtersGradientRule n (.node g)) := by
  obtain ⟨_, _, s, types, same, sized, fits, typed⟩ := Operator.inferFiltersGradient_eq_ok.mp handed.formed.typed
  obtain ⟨gradient, features, inputs, rfl, rfl⟩ := inputs_two types
  have convolves := handed.formed.filtersGradient
  have result := handed.typed.trans typed.symm
  have element : g.elementType = gradient.elementType := Node.elementType_eq result
  refine .certain handed.own fun able => ?_
  have spacious : operable → c.Spacious features.shape s gradient.shape := fun asked => by
    have afforded := ((able asked).suited _ handed.formed).afforded (by simp [Kind.sliding, Operator.kind])
    rw [types, Node.shape_eq typed.symm, ConvolutionAttributes.afford_filtersGradient same] at afforded
    have answered : c.Countable features.shape (c.filters.getD []) gradient.shape := by
      have answered := handed.answered (.inl asked)
      rwa [inputs] at answered
    rw [sized] at answered
    exact .of_countable fits afforded.1 answered
  have convolved : Convolved operable held c features g gradient :=
    ⟨convolves.slides, handed.inputs features (by simp [inputs]), handed.gradient,
      handed.inputs gradient (by simp [inputs]), Node.shape_eq result ▸ fits, element.trans same.symm, same.symm,
      Node.shape_eq result ▸ spacious⟩
  rw [filtersGradientRule, twoInputs_eq inputs, windowOf_eq convolves]
  refine convolved.convolution.step fun first typed => ?_
  refine (convolved.later first).featuresGradient.step fun second typed' => ?_
  exact contributes_two inputs (by simp) (by simp) typed typed'

/-! Pools. -/

theorem contributes_maxpool (handed : Handed operable held n g (.maxpool dims)) :
    Contributes full operable held n (maxpoolRule n (.node g)) := by
  obtain ⟨_, s, types, fits, typed⟩ := Operator.inferMaxpool_eq_ok.mp handed.formed.typed
  obtain ⟨x, inputs, rfl⟩ := inputs_one types
  obtain ⟨stated, windows⟩ := handed.formed.maxpool
  have known : x ∈ held := handed.inputs x (by simp [inputs])
  have fits : pooledShape dims x.shape = .ok n.shape := Node.shape_eq typed.symm ▸ fits
  rw [maxpoolRule, firstInput_eq inputs]
  refine .of_bind stated ?_
  refine (Yields.maxpoolGradient windows handed.gradient handed.own known handed.typed
    (Node.elementType_eq typed.symm) fits).step fun d made => ?_
  exact contributes_one inputs (by simp) made

section tiles
variable {e : ElementType} {batch channels height width tall wide down right : Nat}

/-- Cells behind the last window are cut off. -/
theorem yields_cut (own : x ∈ held) (typed : x.type = ⟨e, [batch, channels, height, width]⟩)
    (tiles : Tiles down right tall wide height width) (some : 1 ≤ batch) (some' : 1 ≤ channels) :
    Yields full operable held .node (·.type = ⟨e, [batch, channels, tall * down, wide * right]⟩)
      (Building.slice (.node x) (.tuple (List.replicate 4 (.int 0)))
        (.tuple [.int batch, .int channels, .int (tall * down), .int (wide * right)])) := by
  refine .known own fun bounded => ?_
  have inside : Operator.sliceDims (List.replicate 4 0)
      ([batch, channels, tall * down, wide * right].map Int.ofNat) x.shape =
        .ok [batch, channels, tall * down, wide * right] := by
    rw [Node.shape_eq typed]
    exact Operator.sliceDims_front (tiles.covered some some')
  have long : x.shape.length = 4 := by rw [Node.shape_eq typed]; rfl
  have fits : Shape.Bounded full [batch, channels, tall * down, wide * right] :=
    tiles.covered_bounded (Node.shape_eq typed ▸ bounded.shape)
  have yields : Yields full operable held .node _ _ := Yields.slice own (Value.lists_tuple (List.replicate 4 0))
    (Value.lists_wholes [batch, channels, tall * down, wide * right]) long.symm long.symm inside fits
  rw [Node.elementType_eq typed] at yields
  simpa using yields

/-- Two axes are split into windows and the cells within a window. -/
theorem yields_blocks (own : x ∈ held) (typed : x.type = ⟨e, [batch, channels, tall * down, wide * right]⟩)
    (tiles : Tiles down right tall wide height width) :
    Yields full operable held .node (fun m => m.type = ⟨e, [batch, channels, tall, down, wide, right]⟩)
      (Building.reshape (.node x)
        (.tuple [.int batch, .int channels, .int tall, .int down, .int wide, .int right])) := by
  refine .known own fun bounded => ?_
  obtain ⟨sizes, counts, -, -⟩ := tiles
  have bounded : Shape.Bounded full [batch, channels, tall * down, wide * right] :=
    Node.shape_eq typed ▸ bounded.shape
  have fits : Shape.Bounded full [batch, channels, tall, down, wide, right] := by
    refine bounded.resized (fun asked => ?_) (show 6 ≤ Shape.maxStretched by decide) (le_of_eq ?_)
    · have positive := bounded.positive asked
      simp only [List.forall_mem_cons] at positive ⊢
      exact ⟨positive.1, positive.2.1, counts.1, sizes.1, counts.2, sizes.2, by simp⟩
    · have one : ∀ {d : Nat}, 1 ≤ d → max d 1 = d := max_eq_left
      simp only [Shape.volume_filled_cons, one sizes.1, one sizes.2, one counts.1, one counts.2,
        one (Nat.mul_pos counts.1 sizes.1), one (Nat.mul_pos counts.2 sizes.2), Nat.mul_assoc]
  have volume : Shape.volume [batch, channels, tall, down, wide, right] = Shape.volume x.shape := by
    rw [Node.shape_eq typed]
    simp [Shape.volume, Nat.mul_assoc]
  refine (Yields.reshape own (Value.lists_wholes [batch, channels, tall, down, wide, right]) volume fits).weaken
    fun m made => made.trans ?_
  rw [Node.elementType_eq typed]

omit [Memory] in
theorem keep_blocks {axes : List Nat} (only : ∀ k, k ∈ axes ↔ k < 6 ∧ Int.ofNat k ∈ [(3 : Int), 5]) :
    Shape.keep [batch, channels, tall, down, wide, right] axes = [batch, channels, tall, wide] := by
  simp [Shape.keep_eq, Shape.keepFrom, only]

/-- Only the gradient that a pool gradient was given is handed a contribution: the sum in each window. -/
theorem contributes_blocks {a b y : Node} (inputs : n.inputs = [a, b, y])
    (first : a.type = ⟨e, [batch, channels, tall, wide]⟩) (own : x ∈ held)
    (typed : x.type = ⟨e, [batch, channels, tall * down, wide * right]⟩)
    (tiles : Tiles down right tall wide height width) :
    Contributes full operable held n (do
      let blocks ← Building.reshape (.node x)
        (.tuple [.int batch, .int channels, .int tall, .int down, .int wide, .int right])
      return [some (← Building.sum blocks [3, 5]), none, none]) := by
  refine (yields_blocks own typed tiles).step fun blocks blocked => ?_
  have front : ∀ i ∈ [(3 : Int), 5], 0 ≤ i ∧ i < blocks.shape.length := by
    rw [Node.shape_eq blocked]
    simp
  refine (Yields.sum (by simp) front (by decide)).step ?_
  rintro d ⟨axes, members, summed⟩
  rw [Node.shape_eq blocked] at members
  rw [Node.shape_eq blocked, Node.elementType_eq blocked, keep_blocks members] at summed
  refine .pure (by simp [Form.contributions]) ?_
  rw [inputs]
  exact .cons (fun _ same => Option.some.inj same ▸ summed.trans first.symm) (.cons none_typed (.cons none_typed .nil))

end tiles

theorem contributes_maxpoolGradient (handed : Handed operable held n g (.maxpoolGradient dims)) :
    Contributes full operable held n (maxpoolGradientRule n (.node g)) := by
  obtain ⟨_, _, types, same, same', fits, shape⟩ := Operator.inferMaxpoolGradient_eq_ok.mp handed.formed.typed
  obtain ⟨a, b, x, inputs, rfl, rfl, typed⟩ := inputs_three types
  obtain ⟨stated, windows⟩ := handed.formed.maxpoolGradient
  rw [← typed] at fits same'
  obtain ⟨batch, channels, height, width, down, right, rfl, features, pooled, tiles⟩ := pooledShape_eq_ok windows fits
  generalize height / down = tall, width / right = wide at pooled tiles
  have second : b ∈ held := handed.inputs b (by simp [inputs])
  have third : x ∈ held := handed.inputs x (by simp [inputs])
  have result : g.type = x.type := handed.typed.trans typed.symm
  have read : (do (← n.params.get "dims").both) = Except.ok (.int down, .int right) :=
    Result.bind_eq_ok.mpr ⟨_, stated, rfl⟩
  obtain ⟨_, filled⟩ := exists_leafBytes_ones b.type
  refine .known second fun bounded => ?_
  rw [maxpoolGradientRule, threeInputs_eq inputs]
  refine .of_bind read (.of_bind bounded.shape.room_doubles ?_)
  refine (Yields.leaf bounded.shape filled).step fun ones typed => ?_
  refine (Yields.maxpoolGradient windows (by simp) (by simp [second]) (by simp [third]) typed
    (same.trans same'.symm) fits).step fun place made => ?_
  refine (Yields.alike .mul (by simp) (by simp [handed.gradient]) (result.trans made.symm)).step
    fun selected masked => ?_
  have selected_typed : selected.type = ⟨x.elementType, [batch, channels, height, width]⟩ := by
    rw [masked, made, ← features]
    rfl
  have first : a.type = ⟨x.elementType, [batch, channels, tall, wide]⟩ :=
    congrArg₂ TensorType.mk same'.symm (shape.trans pooled)
  simp only [show b.shape = [batch, channels, tall, wide] from pooled]
  -- the windows cover the features, or the cells behind the last one are cut off
  refine .of_bind (b := [.int (tall * down), .int (wide * right)]) rfl (.ite (fun whole => ?_) fun part => ?_)
  · have whole : areDims [height, width] ([tall * down, wide * right].map fun (d : Nat) => .int d) = true := by
      simpa [show x.shape = [batch, channels, height, width] from features] using whole
    cases areDims_wholes.mp whole
    exact (Yields.node (by simp) selected_typed).step fun tiled typed =>
      contributes_blocks inputs first (by simp) typed tiles
  · have answered : (∀ d ∈ a.shape, 1 ≤ d) ∨ x.shape = List.zipWith (· * ·) a.shape [1, 1, down, right] := by
      have answered := handed.answered (.inr (by simp [Kind.straining, Operator.kind]))
      rw [inputs] at answered
      exact answered
    rw [Node.shape_eq first, show x.shape = [batch, channels, height, width] from features] at answered
    obtain ⟨some, some'⟩ : 1 ≤ batch ∧ 1 ≤ channels := by
      rcases answered with positive | whole
      · exact ⟨positive batch (by simp), positive channels (by simp)⟩
      · have same : [height, width] = [tall * down, wide * right] := by simpa using whole
        refine absurd ?_ part
        simpa [show x.shape = [batch, channels, height, width] from features] using areDims_wholes.mpr same.symm
    exact (yields_cut (by simp) selected_typed tiles some some').step fun tiled typed =>
      contributes_blocks inputs first (by simp) typed tiles

/-! Softmax. -/

theorem contributes_softmax (handed : Handed operable held n g .softmax) :
    Contributes full operable held n (standardRule .softmax n (.node g)) := by
  obtain ⟨types, axes, _⟩ := Operator.inferSoftmax_eq_ok.mp handed.formed.typed
  obtain ⟨x, inputs, typed⟩ := inputs_one types
  have some : n.shape ≠ [] := List.ne_nil_of_length_pos axes
  refine (Yields.softmaxGradient handed.gradient handed.own handed.typed some).step fun d made => ?_
  exact contributes_one inputs (by simp) (made.trans typed.symm)

theorem yields_lastAxisTotal (own : x ∈ held) (axes : x.shape ≠ []) :
    Yields full operable held .node (·.type = x.type) (lastAxisTotal x) := by
  obtain ⟨lead, dim, split⟩ := (List.eq_nil_or_concat' x.shape).resolve_left axes
  have rank : (x.shape.length : Int) - 1 = lead.length := by
    rw [split, List.length_append, List.length_singleton]
    omega
  have before : x.shape.dropLast = lead := by rw [split, List.dropLast_concat]
  have last : ∀ i ∈ [(lead.length : Int)], 0 ≤ i ∧ i < x.shape.length := by simp [split]
  rw [lastAxisTotal, rank, before]
  refine .known own fun bounded => ?_
  refine (Yields.sum own last (by simp)).step ?_
  rintro total ⟨axes, members, summed⟩
  have only : ∀ k, 0 ≤ k → (k ∈ axes ↔ k = 0 + lead.length) := fun k _ => by
    rw [members, split]
    simp
    omega
  have stretches : Shape.Stretches (lead ++ [1]) x.shape := split ▸ (Shape.Collapses.last only).stretches
  have fits := stretches.bounded bounded.shape
  have volume : Shape.volume (lead ++ [1]) = Shape.volume total.shape := by
    rw [Node.shape_eq summed, Shape.keep_eq, split, Shape.keepFrom_last only, Shape.volume_append]
    exact Nat.mul_one _
  refine (Yields.reshape (by simp) (Value.lists_dims _) volume fits).step fun kept reshaped => ?_
  exact (Yields.broadcast (by simp) (Node.shape_eq reshaped ▸ stretches) bounded.shape).weaken
    fun m made => Node.type_eq made ((Node.elementType_eq reshaped).trans (Node.elementType_eq summed))

theorem contributes_softmaxGradient (handed : Handed operable held n g .softmaxGradient) :
    Contributes full operable held n (softmaxGradientRule n (.node g)) := by
  obtain ⟨u, y, inputs, sameU, sameY⟩ := inputs_two (Operator.inferSoftmaxGradient_eq_ok.mp handed.formed.typed)
  have first : u ∈ held := handed.inputs u (by simp [inputs])
  have second : y ∈ held := handed.inputs y (by simp [inputs])
  have own := handed.gradient
  have typedU : u.type = g.type := sameU.trans handed.typed.symm
  have typedY : y.type = g.type := sameY.trans handed.typed.symm
  have axes : g.type.shape ≠ [] := by
    have answered : (Kind.source (n.inputs.map Node.type)).shape ≠ [] :=
      handed.answered (.inr (by simp [Kind.straining, Operator.kind]))
    rw [inputs] at answered
    exact typedU ▸ answered
  have some : ∀ {m : Node}, m.type = g.type → m.shape ≠ [] := fun typed => by
    rw [Node.shape, typed]
    exact axes
  rw [softmaxGradientRule, twoInputs_eq inputs]
  refine (Yields.softmaxGradient own second typedY.symm (some typedY)).step fun du made => ?_
  refine (Yields.alike .mul (by simp [first]) (by simp [second]) (typedY.trans typedU.symm)).step
    fun weighted typed => ?_
  have typed := typed.trans typedU
  refine (yields_lastAxisTotal (by simp) (some typed)).step fun total summed => ?_
  have summed := summed.trans typed
  refine (Yields.alike .sub (by simp [first]) (by simp) (summed.trans typedU.symm)).step fun rest typed => ?_
  refine (Yields.alike .mul (by simp [own]) (by simp) (typed.trans typedU)).step fun left typedL => ?_
  refine (Yields.alike .mul (by simp [own]) (by simp [second]) typedY).step fun weighted' typed => ?_
  refine (yields_lastAxisTotal (by simp) (some typed)).step fun total' summed' => ?_
  have summed' := summed'.trans typed
  refine (Yields.alike .mul (by simp [first]) (by simp) (summed'.trans typedU.symm)).step fun right typed => ?_
  refine (Yields.alike .sub (by simp) (by simp) ((typed.trans typedU).trans typedL.symm)).step fun dy typed => ?_
  refine contributes_two inputs (by simp) (by simp) (made.trans (typedY.trans typedU.symm)) ?_
  exact (typed.trans typedL).trans typedY.symm

/-- Given the gradient of a node, the rule of its kind returns contributions of the types of the inputs. -/
theorem contributes_standard {op : Operator} (handed : Handed operable held n g op) :
    Contributes full operable held n (standardRule op.kind n (.node g)) := by
  cases op with
  | binary op => exact contributes_binary handed
  | unary op => exact contributes_unary handed
  | matmul => exact contributes_matmul handed
  | sum axes => exact contributes_sum handed
  | maxElement axes => exact contributes_maxElement handed
  | reshape s => exact contributes_reshape handed
  | transpose order => exact contributes_transpose handed
  | slice start stop => exact contributes_slice handed
  | pad before after => exact contributes_pad handed
  | repeated count => exact contributes_repeated handed
  | broadcast s => exact contributes_broadcast handed
  | convolution c => exact contributes_convolution handed
  | featuresGradient c => exact contributes_featuresGradient handed
  | filtersGradient c => exact contributes_filtersGradient handed
  | maxpool dims => exact contributes_maxpool handed
  | maxpoolGradient dims => exact contributes_maxpoolGradient handed
  | softmax => exact contributes_softmax handed
  | softmaxGradient => exact contributes_softmaxGradient handed
  | argmin axis => exact contributes_none
  | uniform s seed => exact contributes_none

end Gradient
end TensorDag
