import TensorDag.Proofs.Fitting

/-!
Gradient rules of operations on axes return: what a node has reduced, turned, cut or widened is brought back
to the shape of its input.
-/
namespace TensorDag

namespace Operator
variable {lows highs : List Int} {s sizes : Shape}

/-- What a slice leaves fills the shape again with margins around it. -/
theorem sliceDims_margins : ∀ {lows highs : List Int} {s sizes : Shape}, sliceDims lows highs s = .ok sizes →
    lows.length = s.length → highs.length = s.length → ∃ after : List Int,
      List.zipWith (fun (dim : Nat) (high : Int) => dim - high) s highs = after ∧ lows.length = sizes.length ∧
        after.length = sizes.length ∧ (∀ i ∈ lows, 0 ≤ i) ∧ (∀ i ∈ after, 0 ≤ i) ∧
          List.zipWith (· + ·) (List.zipWith (· + ·) (lows.map Int.toNat) sizes) (after.map Int.toNat) = s
  | [], [], [], _, found, _, _ => by cases found; exact ⟨[], rfl, rfl, rfl, by simp, by simp, rfl⟩
  | [], _ :: _, _, _, _, first, second => by simp at first second; omega
  | _ :: _, [], _, _, _, first, second => by simp at first second; omega
  | low :: lows, high :: highs, dim :: dims, sizes, found, first, second => by
    rw [sliceDims] at found
    split at found
    · rename_i bounds
      obtain ⟨rest, others, made⟩ := Result.bind_eq_ok.mp found
      cases made
      obtain ⟨after, behind, long, long', lower, upper, filled⟩ :=
        sliceDims_margins others (Nat.succ.inj first) (Nat.succ.inj second)
      have whole : low.toNat + (high - low).toNat + ((dim : Int) - high).toNat = dim := by omega
      refine ⟨(dim - high) :: after, congrArg _ behind, congrArg _ long, congrArg _ long',
        List.forall_mem_cons.mpr ⟨bounds.1, lower⟩, List.forall_mem_cons.mpr ⟨by omega, upper⟩, ?_⟩
      exact congrArg₂ List.cons whole filled
    · cases found

theorem sliceDims_padded : ∀ {lows highs : List Int} {s : Shape}, lows.length = s.length → highs.length = s.length →
    (∀ i ∈ lows, 0 ≤ i) → (∀ d ∈ s, 1 ≤ d) → sliceDims lows
      (List.zipWith (fun (low : Int) (dim : Nat) => low + dim) lows s)
      (List.zipWith (· + ·) (List.zipWith (· + ·) (lows.map Int.toNat) s) (highs.map Int.toNat)) = .ok s
  | [], [], [], _, _, _, _ => rfl
  | [], _ :: _, _, first, second, _, _ => by simp at first second; omega
  | _ :: _, [], _, first, second, _, _ => by simp at first second; omega
  | low :: lows, high :: highs, dim :: s, first, second, lower, positive => by
    obtain ⟨here, lower⟩ := List.forall_mem_cons.mp lower
    obtain ⟨some, positive⟩ := List.forall_mem_cons.mp positive
    have inside : 0 ≤ low ∧ low < low + dim ∧ low + dim ≤ (low.toNat + dim + high.toNat : Nat) := by omega
    have size : (low + dim - low).toNat = dim := by omega
    simp only [List.zipWith_cons_cons, List.map_cons, sliceDims]
    rw [if_pos inside, sliceDims_padded (Nat.succ.inj first) (Nat.succ.inj second) lower positive, size]
    rfl

theorem length_padded (first : lows.length = s.length) (second : highs.length = s.length) :
    lows.length = (List.zipWith (· + ·) (List.zipWith (· + ·) (lows.map Int.toNat) s) (highs.map Int.toNat)).length ∧
      (List.zipWith (fun (low : Int) (dim : Nat) => low + dim) lows s).length =
        (List.zipWith (· + ·) (List.zipWith (· + ·) (lows.map Int.toNat) s) (highs.map Int.toNat)).length := by
  simp [first, second]

/-- The inverse of an order of axes is one, and turns a shape back. -/
theorem isPermutation_inverse {axes : List Nat} (perm : axes.Perm (List.range s.length)) :
    isPermutation ((Shape.inverseOrder axes s.length).map Int.ofNat) s.length = true ∧
      ((Shape.inverseOrder axes s.length).map Int.ofNat).map (fun axis =>
        ((axes.map Int.ofNat).map fun axis => s.getD axis.toNat 0).getD axis.toNat 0) = s := by
  have sizes : axes.length = s.length := by rw [perm.length_eq, List.length_range]
  have distinct : axes.Nodup := perm.nodup_iff.mpr List.nodup_range
  constructor
  · simp only [isPermutation, Shape.inverseOrder, Bool.and_eq_true, decide_eq_true_eq, List.length_map,
      List.length_range, List.all_eq_true, List.contains_iff_mem, List.mem_range, true_and]
    intro place below
    have inside : place < axes.length := by omega
    refine List.mem_map.mpr ⟨place, List.mem_map.mpr ⟨axes[place], ?_, distinct.idxOf_getElem place inside⟩, rfl⟩
    exact perm.mem_iff.mp (List.getElem_mem inside)
  · refine List.ext_getElem (by simp [Shape.inverseOrder]) fun place _ below => ?_
    have member : place ∈ axes := perm.mem_iff.mpr (List.mem_range.mpr below)
    have inside := List.idxOf_lt_length_iff.mpr member
    simp [Shape.inverseOrder, inside, below]

end Operator

namespace Gradient
open Building (Yields)
variable [Memory] {full operable : Prop} {held : List Node} {n g x : Node} {axes : List Nat}

theorem yields_spread (own : g ∈ held) (known : x ∈ held)
    (typed : g.type = ⟨x.elementType, Shape.keep x.shape axes⟩) :
    Yields full operable held .node (·.type = x.type) (spread (.node g) x (Shape.collapse x.shape axes)) := by
  refine .known known fun bounded => ?_
  have stretches := Shape.stretches_collapse x.shape axes
  have fits := stretches.bounded bounded.shape
  have volume : Shape.volume (Shape.collapse x.shape axes) = Shape.volume g.shape := by
    rw [Node.shape_eq typed, Shape.volume_keep_collapse]
  refine (Yields.reshape own (Value.lists_dims _) volume fits).step fun kept made => ?_
  exact (Yields.broadcast (by simp) (Node.shape_eq made ▸ stretches) bounded.shape).weaken
    fun m made' => Node.type_eq made' ((Node.elementType_eq made).trans (Node.elementType_eq typed))

theorem contributes_sum (handed : Handed operable held n g (.sum axes)) :
    Contributes full operable held n (sumRule n (.node g)) := by
  obtain ⟨_, types, typed⟩ := Operator.inferReduction_eq_ok.mp handed.formed.typed
  obtain ⟨x, inputs, rfl⟩ := inputs_one types
  have known : x ∈ held := handed.inputs x (by simp [inputs])
  rw [sumRule, oneInput_eq inputs]
  refine .of_bind handed.formed.sum_axes (.of_bind (keptDims_dims axes x.shape) ?_)
  refine (yields_spread handed.gradient known (handed.typed.trans typed.symm)).step fun d made => ?_
  exact contributes_one inputs (by simp) made

theorem contributes_maxElement (handed : Handed operable held n g (.maxElement axes)) :
    Contributes full operable held n (maxElementRule n (.node g)) := by
  obtain ⟨_, types, typed⟩ := Operator.inferReduction_eq_ok.mp handed.formed.typed
  obtain ⟨x, inputs, rfl⟩ := inputs_one types
  have known : x ∈ held := handed.inputs x (by simp [inputs])
  rw [maxElementRule, oneInput_eq inputs]
  refine .of_bind handed.formed.maxElement_axes (.of_bind (keptDims_dims axes x.shape) ?_)
  refine (yields_spread handed.own known typed.symm).step fun peak spread => ?_
  refine (Yields.alike .eq (by simp [known]) (by simp) spread).step fun hit found => ?_
  refine (yields_spread (by simp [handed.gradient]) (by simp [known]) (handed.typed.trans typed.symm)).step
    fun all spread' => ?_
  refine (Yields.alike .mul (by simp) (by simp) (spread'.trans found.symm)).step fun d made => ?_
  exact contributes_one inputs (by simp) (made.trans found)

theorem contributes_matmul (handed : Handed operable held n g .matmul) :
    Contributes full operable held n (matmulRule n (.node g)) := by
  obtain ⟨e, rows, inner, columns, types, typed⟩ := Operator.inferMatmul_eq_ok.mp handed.formed.typed
  obtain ⟨a, b, inputs, left, right⟩ := inputs_two types
  have own := handed.gradient
  have first : a ∈ held := handed.inputs a (by simp [inputs])
  have second : b ∈ held := handed.inputs b (by simp [inputs])
  have result := handed.typed.trans typed.symm
  refine .known first fun bounded => .known second fun bounded' => ?_
  have fits : Shape.Bounded full [rows, inner] := Node.shape_eq left ▸ bounded.shape
  have fits' : Shape.Bounded full [inner, columns] := Node.shape_eq right ▸ bounded'.shape
  rw [matmulRule, twoInputs_eq inputs]
  refine (Yields.transposed second (Node.shape_eq right)).step fun b' turned => ?_
  refine (Yields.matmul (by simp [own]) (by simp) (Node.shape_eq result) (Node.shape_eq turned) ?_ fits).step
    fun da typed => ?_
  · rw [Node.elementType_eq result, Node.elementType_eq turned, Node.elementType_eq right]
  refine (Yields.transposed (by simp [first]) (Node.shape_eq left)).step fun a' turned' => ?_
  refine (Yields.matmul (by simp) (by simp [own]) (Node.shape_eq turned') (Node.shape_eq result) ?_ fits').step
    fun db typed' => ?_
  · rw [Node.elementType_eq result, Node.elementType_eq turned', Node.elementType_eq left]
  refine contributes_two inputs (by simp) (by simp) (typed.trans ?_) (typed'.trans ?_)
  · rw [left, Node.elementType_eq result]
  · rw [right, Node.elementType_eq turned', Node.elementType_eq left]

theorem contributes_reshape {s : Shape} (handed : Handed operable held n g (.reshape s)) :
    Contributes full operable held n (standardRule .reshape n (.node g)) := by
  obtain ⟨_, types, volume, typed⟩ := Operator.inferReshape_eq_ok.mp handed.formed.typed
  obtain ⟨x, inputs, rfl⟩ := inputs_one types
  have result := handed.typed.trans typed.symm
  rw [standardRule, firstInput_eq inputs]
  refine .known (handed.inputs x (by simp [inputs])) fun bounded => ?_
  have same : Shape.volume x.shape = Shape.volume g.shape := by
    rw [Node.shape_eq result]
    exact volume.symm
  exact (Yields.reshape handed.gradient (Value.lists_dims _) same bounded.shape).step
    fun d made => contributes_one inputs (by simp) (Node.type_eq made (Node.elementType_eq result))

theorem contributes_transpose {order : List Int} (handed : Handed operable held n g (.transpose order)) :
    Contributes full operable held n (transposeRule n (.node g)) := by
  obtain ⟨_, types, permutes, typed⟩ := Operator.inferTranspose_eq_ok.mp handed.formed.typed
  obtain ⟨x, inputs, rfl⟩ := inputs_one types
  obtain ⟨axes, rfl, perm⟩ := Operator.isPermutation_axes permutes
  have result := handed.typed.trans typed.symm
  obtain ⟨inverts, turned⟩ := Operator.isPermutation_inverse (s := x.shape) perm
  refine .known (handed.inputs x (by simp [inputs])) fun bounded => ?_
  refine .of_bind handed.formed.transpose_order (.of_bind rfl (.of_bind (inverse_ints perm) ?_))
  have rank : g.shape.length = x.shape.length := by
    rw [Node.shape_eq result, List.length_map, List.length_map, perm.length_eq, List.length_range]
    rfl
  have back : ((Shape.inverseOrder axes x.shape.length).map Int.ofNat).map (fun axis => g.shape.getD axis.toNat 0) =
      x.shape := by
    rw [Node.shape_eq result]
    exact turned
  refine (Yields.transpose handed.gradient (rank ▸ inverts) (back ▸ bounded.shape)).step
    fun d made => contributes_one inputs (by simp) (made.trans ?_)
  exact congrArg₂ TensorType.mk (Node.elementType_eq result) back

theorem contributes_slice {start stop : List Int} (handed : Handed operable held n g (.slice start stop)) :
    Contributes full operable held n (sliceRule n (.node g)) := by
  obtain ⟨_, types, ⟨fits, fits'⟩, s, inside, typed⟩ := Operator.inferSlice_eq_ok.mp handed.formed.typed
  obtain ⟨x, inputs, rfl⟩ := inputs_one types
  obtain ⟨low, high⟩ := handed.formed.slice_bounds
  have result := handed.typed.trans typed.symm
  obtain ⟨after, behind, long, long', lower, upper, filled⟩ := Operator.sliceDims_margins inside fits fits'
  rw [← Node.shape_eq result] at long long' filled
  rw [sliceRule, oneInput_eq inputs]
  refine .known (handed.inputs x (by simp [inputs])) fun bounded => ?_
  have stops : (do (← n.params.get "stop").items) = Except.ok (stop.map Param.int) :=
    Result.bind_eq_ok.mpr ⟨_, high, rfl⟩
  have axes : operable → g.shape ≠ [] := fun asked scalar => by
    have answered : (Kind.source (n.inputs.map Node.type)).shape ≠ [] := handed.answered (.inl asked)
    rw [inputs] at answered
    rw [scalar, List.length_nil] at long
    exact answered (List.eq_nil_of_length_eq_zero (fits.symm.trans long))
  refine .of_bind stops (.of_bind (mapM_withDim_sub x.shape stop) (.of_bind low ?_))
  refine (Yields.pad handed.gradient (Value.lists_ofParam start) (Value.lists_list _) long (behind ▸ long') lower
    (behind ▸ upper) (behind ▸ filled) bounded.shape axes).step fun d made => ?_
  exact contributes_one inputs (by simp) (Node.type_eq made (Node.elementType_eq result))

theorem contributes_pad {before after : List Int} (handed : Handed operable held n g (.pad before after)) :
    Contributes full operable held n (padRule n (.node g)) := by
  obtain ⟨_, types, ⟨fits, fits'⟩, ⟨lower, upper⟩, typed⟩ := Operator.inferPad_eq_ok.mp handed.formed.typed
  obtain ⟨x, inputs, rfl⟩ := inputs_one types
  have result := handed.typed.trans typed.symm
  rw [padRule, oneInput_eq inputs]
  have answered : ∀ d ∈ (Kind.source (n.inputs.map Node.type)).shape, 1 ≤ d :=
    handed.answered (.inr (by simp [Kind.straining, Operator.kind]))
  rw [inputs] at answered
  refine .known (handed.inputs x (by simp [inputs])) fun bounded => ?_
  refine .of_bind handed.formed.pad_margins.1 (.of_bind rfl (.of_bind (mapM_withDim_add before x.shape) ?_))
  have inside := Operator.sliceDims_padded fits fits' lower answered
  obtain ⟨long, long'⟩ := Operator.length_padded fits fits'
  rw [← Node.shape_eq result] at long long'
  refine (Yields.slice handed.gradient (Value.lists_ofParam before) (Value.lists_list _) long long'
    (Node.shape_eq result ▸ inside) bounded.shape).step fun d made => ?_
  exact contributes_one inputs (by simp) (Node.type_eq made (Node.elementType_eq result))

theorem contributes_repeated {count : Int} (handed : Handed operable held n g (.repeated count)) :
    Contributes full operable held n (standardRule .repeated n (.node g)) := by
  obtain ⟨_, types, _, typed⟩ := Operator.inferRepeated_eq_ok.mp handed.formed.typed
  obtain ⟨x, inputs, rfl⟩ := inputs_one types
  have result := handed.typed.trans typed.symm
  have front : ∀ i ∈ [(0 : Int)], 0 ≤ i ∧ i < g.shape.length := by
    rw [Node.shape_eq result]
    simp
  refine (Yields.sum handed.gradient front (by simp)).step fun d ⟨axes, members, made⟩ => ?_
  have only : ∀ k, k ∈ axes ↔ k = 0 := fun k => by
    rw [members, Node.shape_eq result]
    simp
    omega
  refine contributes_one inputs (by simp) (made.trans ?_)
  rw [Node.shape_eq result, Shape.keep_front only, Node.elementType_eq result]

theorem contributes_broadcast {s : Shape} (handed : Handed operable held n g (.broadcast s)) :
    Contributes full operable held n (standardRule .broadcast n (.node g)) := by
  obtain ⟨_, types, common, typed⟩ := Operator.inferBroadcast_eq_ok.mp handed.formed.typed
  obtain ⟨x, inputs, rfl⟩ := inputs_one types
  have result := handed.typed.trans typed.symm
  have widens : x.type.Widens g.type :=
    result ▸ ⟨rfl, (Shape.broadcast?_eq_some (Operator.common_eq_ok common)).1⟩
  rw [standardRule, firstInput_eq inputs]
  exact (yields_unbroadcastTo handed.gradient widens).step fun d made => contributes_one inputs (by simp) made

end Gradient
end TensorDag
