import TensorDag.Proofs.Contributions

/-!
Contributions of nodes whose cells are moved, dropped, repeated or added up: the parameters of the nodes
tell the rules what to undo.
-/
namespace TensorDag
open Program (bind_eq_ok pure_eq_ok)
open Building (of_eq_ok)
open Node (exact Fit Reached)

theorem Result.mapM_ok {α β : Type} {f : α → Result β} {g : α → β} {items : List α}
    (each : ∀ a ∈ items, f a = .ok (g a)) : items.mapM f = .ok (items.map g) := by
  induction items with
  | nil => rfl
  | cons a rest ih =>
    rw [List.mapM_cons, each a (List.mem_cons_self ..), ih fun b member => each b (List.mem_cons_of_mem _ member)]
    rfl

theorem Result.mapM_zip {α β γ δ : Type} {f : α × β → Result Value} {u : γ → α} {v : δ → β} {h : γ → δ → Int}
    (each : ∀ c d, f (u c, v d) = .ok (.int (h c d))) (cs : List γ) (ds : List δ) :
    ((cs.map u).zip (ds.map v)).mapM f = .ok ((List.zipWith h cs ds).map .int) := by
  induction cs generalizing ds with
  | nil => rfl
  | cons c rest ih =>
    cases ds with
    | nil => rfl
    | cons d others =>
      rw [List.map_cons, List.map_cons, List.zip_cons_cons, List.mapM_cons, each, ih]
      rfl

namespace Params
variable {ps : Params} {name : String}

/-- What an operator has read is what the parameter says. -/
theorem get_of_need {α : Type} {read : Param → Option α} {a : α} (needed : ps.need name read = .ok a) :
    ∃ p, ps.get name = .ok p ∧ read p = some a := by
  unfold need at needed
  cases found : ps.find? name with
  | none =>
    rw [found] at needed
    cases needed
  | some p =>
    refine ⟨p, by rw [Params.get, found]; rfl, ?_⟩
    simp only [found] at needed
    cases answer : read p with
    | none =>
      rw [answer] at needed
      cases needed
    | some b =>
      rw [answer] at needed
      exact congrArg some (Except.ok.inj needed)

/-- An optional parameter that is there is read like one that is needed. -/
theorem need_of_want {α : Type} {read : Param → Option α} {a : α} (wanted : ps.want name read = .ok (some a)) :
    ps.need name read = .ok a := by
  unfold want at wanted
  unfold need
  cases found : ps.find? name with
  | none =>
    rw [found] at wanted
    cases wanted
  | some p =>
    simp only [found] at wanted ⊢
    cases answer : read p with
    | none =>
      rw [answer] at wanted
      cases wanted
    | some b =>
      rw [answer] at wanted
      cases wanted
      rfl

theorem get_dims {ns : List Nat} (needed : ps.need name Param.dims? = .ok ns) : ps.get name = .ok (.dims ns) := by
  obtain ⟨p, got, read⟩ := get_of_need needed
  rw [got, Param.dims?_eq_some.mp read]

theorem get_ints {is : List Int} (needed : ps.need name Param.ints? = .ok is) : ps.get name = .ok (.ints is) := by
  obtain ⟨p, got, read⟩ := get_of_need needed
  rw [got, Param.ints?_eq_some.mp read]

theorem get_pair {q : Int × Int} (needed : ps.need name Param.pair? = .ok q) : ps.get name = .ok (.ofPair q) := by
  obtain ⟨p, got, read⟩ := get_of_need needed
  rw [got, Param.pair?_eq_some.mp read]

end Params

namespace Node.Formed
variable {n : Node}

theorem sum_axes {axes : List Nat} (formed : n.Formed (.sum axes)) : n.params.get "axes" = .ok (.dims axes) := by
  obtain ⟨read, needed, made⟩ := Result.bind_eq_ok.mp formed.attributes
  cases made
  exact Params.get_dims needed

theorem maxElement_axes {axes : List Nat} (formed : n.Formed (.maxElement axes)) :
    n.params.get "axes" = .ok (.dims axes) := by
  obtain ⟨read, needed, made⟩ := Result.bind_eq_ok.mp formed.attributes
  cases made
  exact Params.get_dims needed

theorem transpose_order {order : List Int} (formed : n.Formed (.transpose order)) :
    n.params.get "order" = .ok (.ints order) := by
  obtain ⟨read, needed, made⟩ := Result.bind_eq_ok.mp formed.attributes
  cases made
  exact Params.get_ints needed

theorem slice_bounds {start stop : List Int} (formed : n.Formed (.slice start stop)) :
    n.params.get "start" = .ok (.ints start) ∧ n.params.get "stop" = .ok (.ints stop) := by
  obtain ⟨low, first, attributes⟩ := Result.bind_eq_ok.mp formed.attributes
  obtain ⟨high, second, made⟩ := Result.bind_eq_ok.mp attributes
  cases made
  exact ⟨Params.get_ints first, Params.get_ints second⟩

theorem pad_margins {before after : List Int} (formed : n.Formed (.pad before after)) :
    n.params.get "before" = .ok (.ints before) ∧ n.params.get "after" = .ok (.ints after) := by
  obtain ⟨low, first, attributes⟩ := Result.bind_eq_ok.mp formed.attributes
  obtain ⟨high, second, made⟩ := Result.bind_eq_ok.mp attributes
  cases made
  exact ⟨Params.get_ints first, Params.get_ints second⟩

end Node.Formed

/-- An order that passes is a permutation of the axes, counted from the front. -/
theorem Operator.isPermutation_axes {order : List Int} {rank : Nat} (permutes : isPermutation order rank = true) :
    ∃ axes : List Nat, order = axes.map Int.ofNat ∧ axes.Perm (List.range rank) := by
  simp only [isPermutation, Bool.and_eq_true, decide_eq_true_eq, List.all_eq_true, List.contains_iff_mem] at permutes
  obtain ⟨sizes, all⟩ := permutes
  have distinct : ((List.range rank).map Int.ofNat).Nodup :=
    List.nodup_range.map fun _ _ => Int.ofNat.inj
  have inside : ((List.range rank).map Int.ofNat).Subperm order := by
    refine distinct.subperm fun i member => ?_
    obtain ⟨axis, below, rfl⟩ := List.mem_map.mp member
    exact all axis below
  have perm := inside.perm_of_length_le (by simp [sizes])
  have positive : order = (order.map Int.toNat).map Int.ofNat := by
    rw [List.map_map]
    refine (List.map_id order).symm.trans (List.map_congr_left fun i member => ?_)
    obtain ⟨axis, _, rfl⟩ := List.mem_map.mp (perm.mem_iff.mpr member)
    rfl
  refine ⟨order.map Int.toNat, positive, ?_⟩
  have turned := perm.symm.map Int.toNat
  rwa [List.map_map, show Int.toNat ∘ Int.ofNat = id from rfl, List.map_id] at turned

namespace Gradient
open Tensor (dot)

theorem lastPlace_absent {axis : Nat} : ∀ {order : List Nat} {place found : Nat}, axis ∉ order →
    lastPlace axis order place found = found
  | [], _, _, _ => rfl
  | head :: rest, place, found, absent => by
    have other : ¬head = axis := fun same => absent (by simp [same])
    rw [lastPlace, if_neg other, lastPlace_absent fun later => absent (List.mem_cons_of_mem _ later)]

theorem lastPlace_eq_idxOf {axis : Nat} : ∀ {order : List Nat} {place found : Nat}, order.Nodup → axis ∈ order →
    lastPlace axis order place found = place + order.idxOf axis
  | head :: rest, place, found, distinct, member => by
    rw [lastPlace]
    by_cases same : head = axis
    · have once : axis ∉ rest := by simpa [same] using (List.nodup_cons.mp distinct).1
      rw [if_pos same, lastPlace_absent once]
      simp [same]
    · have later : axis ∈ rest := (List.mem_cons.mp member).resolve_left fun equal => same equal.symm
      rw [if_neg same, lastPlace_eq_idxOf (List.nodup_cons.mp distinct).2 later, List.idxOf_cons_ne _ same]
      omega

/-- The order that a rule computes is the inverse one. -/
theorem inverse_ints {order : List Nat} {rank : Nat} (perm : order.Perm (List.range rank)) :
    inverse ((order.map Int.ofNat).map Param.int) = .ok ((Shape.inverseOrder order rank).map Int.ofNat) := by
  have sizes : ((order.map Int.ofNat).map Param.int).length = rank := by
    rw [List.length_map, List.length_map, perm.length_eq, List.length_range]
  rw [inverse, sizes]
  refine Result.bind_eq_ok.mpr ⟨order, ?_, congrArg Except.ok ?_⟩
  · refine (Result.mapM_ok (g := fun p => (p.int?.getD 0).toNat) fun p member => ?_).trans (congrArg Except.ok ?_)
    · rw [List.map_map] at member
      obtain ⟨axis, own, rfl⟩ := List.mem_map.mp member
      have placed : place? rank (Int.ofNat axis) = some axis :=
        place?_ofNat (List.mem_range.mp (perm.mem_iff.mp own))
      simp only [Function.comp, Param.whole, Param.whole?, Option.map_some, Option.getD_some, bind, Except.bind, placed]
      rfl
    · rw [List.map_map, List.map_map]
      exact List.map_id order
  rw [Shape.inverseOrder, List.map_map]
  refine List.map_congr_left fun axis below => ?_
  have distinct : order.Nodup := perm.nodup_iff.mpr List.nodup_range
  rw [lastPlace_eq_idxOf distinct (perm.mem_iff.mpr below), Nat.zero_add]
  rfl

variable {R : Type} [CommRing R] {given : Node → Option (Tensor R)} {w w' : Workspace} {n g : Node}
  {cs : Contributions}

theorem keptDims_dims (axes : List Nat) (s : Shape) : keptDims (.dims axes) s = .ok (Shape.collapse s axes) := by
  refine Result.mapM_ok fun entry _ => ?_
  have named : namesAxis (.dims axes) entry.2 = .ok (axes.contains entry.2) := by
    simp only [namesAxis, Param.dims, List.any_map]
    refine congrArg Except.ok (Bool.eq_iff_iff.mpr ?_)
    simp [Param.same_int]
  dsimp only
  rw [named]
  rfl

theorem sumRule_passes {axes : List Nat} (reached : Reached w n g (.sum axes)) (fit : Fit given)
    (ran : sumRule n (.node g) w = .ok cs w') : w.Passes given w' n g (.sum axes) cs := by
  simp only [sumRule, spread, bind_eq_ok, pure_eq_ok, of_eq_ok] at ran
  obtain ⟨x, _, one, p, _, ⟨got, rfl⟩, kept, _, ⟨keeps, rfl⟩, c, _, ⟨r, middle, reshaped, stretched⟩, rfl, rfl⟩ :=
    ran
  obtain ⟨inputs, rfl⟩ := oneInput_eq_ok one
  cases reached.formed.sum_axes.symm.trans got
  cases (keptDims_dims axes x.shape).symm.trans keeps
  have reshape := reached.exact.reshape reached.gradient (Value.lists_dims _) reshaped
  have broadcast := reshape.exact.broadcast reshape.member stretched
  refine .one (reshape.grows.trans broadcast.grows) broadcast.exact broadcast.member inputs fun a value => ?_
  have size := reached.value_shape fit (by simp [inputs]) value
  have shaped := reached.shaped
  rw [inputs] at shaped
  have kept : r.exact given = (g.exact given).reshape r.shape := reshape.exact_eq fit
  have spread : c.exact given = (r.exact given).broadcast c.shape := broadcast.exact_eq fit
  rw [spread, kept, reshape.shaped.1, broadcast.shaped.1, ← size]
  have total : dot (g.exact given) (a.tangent.sum axes) = _ :=
    Tensor.dot_sum ((reached.gradient_shape fit).trans (shaped.trans (congrArg (Shape.keep · axes) size.symm)))
  refine Eq.trans ?_ total
  exact congrArg (dot _) (Tensor.map_sum_axes (TrivSqZeroExt.sndHom R R).toAddMonoidHom axes a)

theorem reshapeRule_passes [Memory] {s : Shape} (reached : Reached w n g (.reshape s)) (fit : Fit given)
    (ran : standardRule .reshape n (.node g) w = .ok cs w') : w.Passes given w' n g (.reshape s) cs := by
  simp only [standardRule, bind_eq_ok, pure_eq_ok] at ran
  obtain ⟨x, _, one, c, _, reshaped, rfl, rfl⟩ := ran
  obtain ⟨⟨rest, inputs⟩, rfl⟩ := firstInput_eq_ok one
  have shaped := reached.shaped
  rw [inputs] at shaped
  cases rest with
  | cons => exact shaped.elim
  | nil =>
    have reshape := reached.exact.reshape reached.gradient (Value.lists_dims _) reshaped
    refine .one reshape.grows reshape.exact reshape.member inputs fun a value => ?_
    have size := reached.value_shape fit (by simp [inputs]) value
    have gradient := reached.gradient_shape fit
    have back : c.exact given = (g.exact given).reshape c.shape := reshape.exact_eq fit
    rw [back, reshape.shaped.1, ← size, ← gradient]
    refine Tensor.dot_reshape (x := a.tangent) ?_
    rw [gradient, shaped.1, Tensor.tangent_shape, size]
    exact shaped.2

theorem broadcastRule_passes [Memory] {s : Shape} (reached : Reached w n g (.broadcast s)) (fit : Fit given)
    (ran : standardRule .broadcast n (.node g) w = .ok cs w') : w.Passes given w' n g (.broadcast s) cs := by
  simp only [standardRule, bind_eq_ok, pure_eq_ok] at ran
  obtain ⟨x, _, one, c, _, made, rfl, rfl⟩ := ran
  obtain ⟨⟨rest, inputs⟩, rfl⟩ := firstInput_eq_ok one
  have shaped := reached.shaped
  rw [inputs] at shaped
  cases rest with
  | cons => exact shaped.elim
  | nil =>
    obtain ⟨same, found⟩ := shaped
    have stretches := (Shape.broadcast?_eq_some found).1
    rw [← same, ← reached.shape] at stretches
    have gathers := reached.exact.gather fit reached.gradient stretches made
    refine .one gathers.grows gathers.exact gathers.member inputs fun a value => ?_
    rw [← reached.gradient_shape fit]
    exact Tensor.dot_tangent_broadcast gathers.gathers (reached.gathered_shape gathers fit (by simp [inputs]) value)

theorem repeatedRule_passes [Memory] {count : Int} (reached : Reached w n g (.repeated count)) (fit : Fit given)
    (ran : standardRule .repeated n (.node g) w = .ok cs w') : w.Passes given w' n g (.repeated count) cs := by
  simp only [standardRule, bind_eq_ok, pure_eq_ok] at ran
  obtain ⟨c, _, summed, rfl, rfl⟩ := ran
  have shaped := reached.shaped
  rcases inputs : n.inputs with _ | ⟨x, _ | ⟨_, _⟩⟩ <;> rw [inputs] at shaped
  · exact shaped.elim
  · obtain ⟨positive, repeats⟩ := shaped
    obtain ⟨axes, sum, members⟩ := reached.exact.sum reached.gradient (by simp) summed
    refine .one sum.grows sum.exact sum.member inputs fun a value => ?_
    have size := reached.value_shape fit (by simp [inputs]) value
    have gradient := reached.gradient_shape fit
    have only : ∀ k, k ∈ axes ↔ k = 0 := fun k => by
      rw [members, reached.shape, repeats]
      simp
      omega
    have collapses : Shape.Collapses axes 0 g.shape (List.replicate 1 1 ++ x.shape) := by
      rw [reached.shape, repeats]
      exact .behind (show ∀ k, 0 ≤ k → k < 0 + [count.toNat].length → k ∈ axes by simp [only])
        (.self fun k above member => by simp [(only k).mp member] at above)
    have stretches : Shape.Stretches x.shape g.shape := by
      rw [reached.shape, repeats]
      exact ⟨[count.toNat], x.shape, rfl, List.forall₂_same.mpr fun _ _ => .inl rfl⟩
    have kept : c.shape = x.shape := by
      have total : c.shape = Shape.keep g.shape axes := sum.shaped
      rw [total, reached.shape, repeats, Shape.keep_front only]
    have total : c.exact given = (g.exact given).sum axes := sum.exact_eq fit
    have same : (c.exact given).shape = x.shape := (sum.exact.exact_shape fit sum.member).trans kept
    have whole := reached.exact.exact_shape fit reached.gradient
    rw [← gradient]
    refine Tensor.dot_tangent_broadcast (total ▸ Tensor.gathers_total (whole.symm ▸ collapses)
      (whole.symm ▸ stretches) (total ▸ same)) (same.trans size.symm)
  · exact shaped.elim

theorem transposeRule_passes {order : List Int} (reached : Reached w n g (.transpose order)) (fit : Fit given)
    (ran : transposeRule n (.node g) w = .ok cs w') : w.Passes given w' n g (.transpose order) cs := by
  simp only [transposeRule, bind_eq_ok, pure_eq_ok, of_eq_ok] at ran
  obtain ⟨p, _, ⟨got, rfl⟩, items, _, ⟨listed, rfl⟩, back, _, ⟨inverted, rfl⟩, c, _, made, rfl, rfl⟩ := ran
  cases reached.formed.transpose_order.symm.trans got
  cases listed
  have shaped := reached.shaped
  rcases inputs : n.inputs with _ | ⟨x, _ | ⟨_, _⟩⟩ <;> rw [inputs] at shaped
  · exact shaped.elim
  · obtain ⟨axes, rfl, perm⟩ := Operator.isPermutation_axes shaped.1
    rw [inverse_ints perm] at inverted
    cases inverted
    have transpose := reached.exact.transpose reached.gradient made
    refine .one transpose.grows transpose.exact transpose.member inputs fun a value => ?_
    have size := reached.value_shape fit (by simp [inputs]) value
    have turned : c.exact given = (g.exact given).transpose
        (((Shape.inverseOrder axes x.shape.length).map Int.ofNat).map Int.toNat) := transpose.exact_eq fit
    have rank : (g.exact given).shape.length = a.tangent.shape.length := by
      rw [reached.gradient_shape fit, shaped.2, Tensor.tangent_shape, size, List.length_map, List.length_map,
        perm.length_eq, List.length_range]
    have moved : (Operator.tensor (.transpose (axes.map Int.ofNat)) n.shape [a]).tangent =
        a.tangent.transpose ((axes.map Int.ofNat).map Int.toNat) := rfl
    rw [turned, moved, Shape.toNat_ofNat, Shape.toNat_ofNat, ← size]
    exact Tensor.dot_transpose (x := a.tangent) (size.symm ▸ perm) rank
  · exact shaped.elim

theorem mapM_withDim_sub (s : Shape) (stop : List Int) :
    (s.zip (stop.map Param.int)).mapM (fun (dim, high) =>
      withDim (dim - ·) (Double.lift₂ (· - ·) (.ofNat dim)) high) =
        .ok ((List.zipWith (fun (dim : Nat) (high : Int) => dim - high) s stop).map .int) := by
  have all := Result.mapM_zip (u := id) (v := Param.int) (f := fun ((dim : Nat), high) =>
    withDim (dim - ·) (Double.lift₂ (· - ·) (.ofNat dim)) high) (h := fun (dim : Nat) high => dim - high)
    (fun _ _ => rfl) s stop
  rwa [List.map_id] at all

theorem mapM_withDim_add (before : List Int) (s : Shape) :
    ((before.map Param.int).zip s).mapM (fun (low, dim) =>
      withDim (· + dim) (Double.lift₂ (· + ·) (.ofNat dim)) low) =
        .ok ((List.zipWith (fun (low : Int) (dim : Nat) => low + dim) before s).map .int) := by
  have all := Result.mapM_zip (u := Param.int) (v := id) (f := fun (low, (dim : Nat)) =>
    withDim (· + dim) (Double.lift₂ (· + ·) (.ofNat dim)) low) (h := fun low (dim : Nat) => low + dim)
    (fun _ _ => rfl) before s
  rwa [List.map_id] at all

theorem sliceRule_passes {start stop : List Int} (reached : Reached w n g (.slice start stop)) (fit : Fit given)
    (ran : sliceRule n (.node g) w = .ok cs w') : w.Passes given w' n g (.slice start stop) cs := by
  simp only [sliceRule, bind_eq_ok, pure_eq_ok, of_eq_ok] at ran
  obtain ⟨x, _, one, highs, _, ⟨listed, rfl⟩, after, _, ⟨margins, rfl⟩, low, _, ⟨got, rfl⟩, c, _, made, rfl, rfl⟩ :=
    ran
  obtain ⟨inputs, rfl⟩ := oneInput_eq_ok one
  obtain ⟨high, second, listed⟩ := Result.bind_eq_ok.mp listed
  cases reached.formed.slice_bounds.2.symm.trans second
  cases reached.formed.slice_bounds.1.symm.trans got
  cases listed
  cases (mapM_withDim_sub x.shape stop).symm.trans margins
  have pad := reached.exact.pad reached.gradient (Value.lists_ofParam start) (Value.lists_list _) made
  refine .one pad.grows pad.exact pad.member inputs fun a value => ?_
  have size := reached.value_shape fit (by simp [inputs]) value
  have shaped := reached.shaped
  rw [inputs] at shaped
  obtain ⟨within, sizes, _, _⟩ := Operator.sliceDims_eq_ok shaped.2.2 shaped.1 shaped.2.1
  have padded : c.exact given = (g.exact given).pad (start.map Int.toNat) _ := pad.exact_eq fit
  have gradient := reached.gradient_shape fit
  rw [padded]
  refine Tensor.dot_slice (x := a.tangent) (gradient.trans sizes).symm ?_
  rw [gradient, Tensor.tangent_shape, size]
  exact within

theorem padRule_passes {before after : List Int} (reached : Reached w n g (.pad before after)) (fit : Fit given)
    (ran : padRule n (.node g) w = .ok cs w') : w.Passes given w' n g (.pad before after) cs := by
  simp only [padRule, bind_eq_ok, pure_eq_ok, of_eq_ok] at ran
  obtain ⟨x, _, one, low, _, ⟨got, rfl⟩, lows, _, ⟨listed, rfl⟩, stop, _, ⟨bounds, rfl⟩, c, _, made, rfl, rfl⟩ :=
    ran
  obtain ⟨inputs, rfl⟩ := oneInput_eq_ok one
  cases reached.formed.pad_margins.1.symm.trans got
  cases listed
  cases (mapM_withDim_add before x.shape).symm.trans bounds
  have slice := reached.exact.slice reached.gradient (Value.lists_ofParam before) (Value.lists_list _) made
  refine .one slice.grows slice.exact slice.member inputs fun a value => ?_
  have size := reached.value_shape fit (by simp [inputs]) value
  have shaped := reached.shaped
  rw [inputs] at shaped
  have sliced : c.exact given = (g.exact given).slice (before.map Int.toNat) _ :=
    slice.exact_eq fit
  have moved : (Operator.tensor (.pad before after) n.shape [a]).tangent =
      a.tangent.pad (before.map Int.toNat) (after.map Int.toNat) :=
    Tensor.map_pad (TrivSqZeroExt.sndHom R R).toAddMonoidHom _ _ a
  rw [sliced, moved]
  refine Tensor.dot_pad (x := a.tangent) (Shape.within_margins ?_ ?_)
  · rw [List.length_map, shaped.1, Tensor.tangent_shape, size]
  · rw [List.length_map, shaped.2.1, Tensor.tangent_shape, size]

end Gradient
end TensorDag
