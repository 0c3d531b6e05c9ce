import TensorDag.Operator.Demands
import TensorDag.Proofs.Moderate
import TensorDag.Proofs.Sliding

/-!
What operators ask for on their way. A convolution and its two gradients look at the same windows over the same
features, in other orders; what one of them is afforded is told here in terms of the three shapes, so that it can be
told of the other two.
-/
namespace TensorDag
open Result (bind_eq_ok)

namespace Shape
variable {s : Shape} {size : Nat}

theorem countable_append_of_mem (empty : 0 ∈ s) (t : Shape) : countable size (s ++ t) = countable size s := by
  induction s generalizing size with
  | nil => cases empty
  | cons d rest ih =>
    by_cases here : d = 0
    · simp [countable, here]
    · rw [List.cons_append, countable, countable, ih ((List.mem_cons.mp empty).resolve_left (Ne.symm here))]

theorem volume_lt_of_countable (positive : ∀ d ∈ s, 1 ≤ d) (start : size < limit) (counts : countable size s = true) :
    size * volume s < limit := by
  induction s generalizing size with
  | nil => rwa [volume, Nat.mul_one]
  | cons d rest ih =>
    obtain ⟨here, later⟩ := List.forall_mem_cons.mp positive
    rw [countable, decide_eq_false (Nat.one_le_iff_ne_zero.mp here), Bool.false_or, Bool.and_eq_true,
      decide_eq_true_eq] at counts
    rw [volume, ← Nat.mul_assoc]
    exact ih later counts.1 counts.2

theorem countable_of_volume {t : Shape} (positive : ∀ d ∈ s, 1 ≤ d) (counts : countable 1 s = true)
    (fewer : volume t.filled ≤ volume s.filled) : countable 1 t = true := by
  have bound := volume_lt_of_countable positive (show 1 < limit by decide) counts
  rw [filled_of_positive positive] at fewer
  exact countable_of_filled (lt_of_le_of_lt (Nat.mul_le_mul_left 1 fewer) bound)

section orders
variable (batch channels outputs rows columns tall wide : Nat)

theorem volume_spread : volume (filled [batch, channels, tall, wide, outputs]) ≤
    volume (filled [batch, outputs, tall, wide, channels, rows, columns]) := by
  have window : 1 ≤ max rows 1 * max columns 1 := Nat.mul_pos (by omega) (by omega)
  simp only [volume_filled_cons]
  calc _ ≤ (max batch 1 * (max channels 1 * (max tall 1 * (max wide 1 * (max outputs 1 * volume (filled [])))))) *
        (max rows 1 * max columns 1) := Nat.le_mul_of_pos_right _ window
    _ = _ := by ring

theorem volume_gathered : volume (filled [outputs, channels, rows, columns, batch, tall, wide]) =
    volume (filled [batch, outputs, tall, wide, channels, rows, columns]) := by
  simp only [volume_filled_cons]
  ring

section products
variable {batch channels outputs rows columns tall wide} (tall_pos : 1 ≤ tall) (wide_pos : 1 ≤ wide)
  (products : countable 1 [batch, outputs, tall, wide, channels, rows, columns] = true)
include tall_pos wide_pos products

/-- Products that are counted for a convolution are counted in any other order, unless an axis is empty. -/
theorem countable_of_products (some : ∀ d ∈ [batch, channels, outputs, rows, columns], 1 ≤ d) {t : Shape}
    (fewer : volume t.filled ≤ volume (filled [batch, outputs, tall, wide, channels, rows, columns])) :
    countable 1 t = true := by
  refine countable_of_volume ?_ products fewer
  simp only [List.forall_mem_cons] at some ⊢
  tauto

/-- Where an axis is empty, the cells before it are among those of features or there are none behind it. -/
theorem countable_spread (windows : ¬(rows = 0 ∨ columns = 0))
    (bound : volume (filled [batch, channels, tall, wide]) < limit) :
    countable 1 [batch, channels, tall, wide, outputs] = true := by
  have counted : ∀ {t : Shape}, volume t.filled ≤ volume (filled [batch, channels, tall, wide]) →
      countable 1 t = true := fun fewer =>
    countable_of_filled (by rw [Nat.one_mul]; exact lt_of_le_of_lt fewer bound)
  by_cases none : 0 ∈ [batch, channels]
  · exact (countable_append_of_mem none [tall, wide, outputs]).trans
      (counted (filled_sublist (List.sublist_append_left _ _)))
  by_cases unread : outputs = 0
  · exact counted (by simp [volume_filled_cons, unread])
  · simp only [List.mem_cons, List.not_mem_nil, or_false, not_or] at none
    refine countable_of_products tall_pos wide_pos products ?_ (volume_spread ..)
    simp only [List.forall_mem_cons]
    exact ⟨by omega, by omega, by omega, by omega, by omega, by simp⟩

/-- Where an axis is empty, the cells before it are among those of filters or there are none behind it. -/
theorem countable_gathered (bound : volume (filled [outputs, channels, rows, columns]) < limit) :
    countable 1 [outputs, channels, rows, columns, batch, tall, wide] = true := by
  have counted : ∀ {t : Shape}, volume t.filled ≤ volume (filled [outputs, channels, rows, columns]) →
      countable 1 t = true := fun fewer =>
    countable_of_filled (by rw [Nat.one_mul]; exact lt_of_le_of_lt fewer bound)
  by_cases none : 0 ∈ [outputs, channels, rows, columns]
  · exact (countable_append_of_mem none [batch, tall, wide]).trans (counted le_rfl)
  by_cases unread : batch = 0
  · have empty : 0 ∈ [outputs, channels, rows, columns, batch] := by simp [unread]
    refine (countable_append_of_mem empty [tall, wide]).trans (counted (le_of_eq ?_))
    simp [volume_filled_cons, unread]
  · simp only [List.mem_cons, List.not_mem_nil, or_false, not_or] at none
    refine countable_of_products tall_pos wide_pos products ?_ (volume_gathered ..).le
    simp only [List.forall_mem_cons]
    exact ⟨by omega, by omega, by omega, by omega, by omega, by simp⟩

end products
end orders

end Shape

namespace Operator
variable {op : Operator} {types : List TensorType} {result : Shape}

theorem meets_eq_ok [Memory] {demands : List Demand} :
    demands.forM Demand.meet = .ok () ↔ ∀ d ∈ demands, d.meet = .ok () := by
  induction demands with
  | nil => exact iff_of_true rfl (by simp)
  | cons d rest ih =>
    rw [List.forall_mem_cons, ← ih]
    exact bind_eq_ok.trans ⟨fun ⟨_, here, later⟩ => ⟨here, later⟩, fun ⟨here, later⟩ => ⟨(), here, later⟩⟩

theorem afford_eq_ok [Memory] : op.afford types result = .ok () ↔
    (op.widens (op.kind.elementType? types) = true → result.room 8 = .ok ()) ∧
      ∀ d ∈ op.ownDemands types result, d.meet = .ok () := by
  rw [afford, demands, meets_eq_ok]
  by_cases wide : op.widens (op.kind.elementType? types) = true
  · rw [if_pos wide, List.forall_mem_cons]
    exact and_congr_left fun _ => ((imp_iff_right wide).symm)
  · rw [if_neg wide]
    exact (and_iff_right fun yes => absurd yes wide).symm

end Operator

theorem Demand.meet_view [Memory] {s : Shape} : (Demand.view s).meet = .ok () ↔ s.Holdable := by
  rw [meet, ← Shape.holdable_iff]
  by_cases holdable : s.holdable = true
  · simp [holdable]
  · exact iff_of_false (by rw [if_neg holdable]; nofun) holdable

theorem Demand.meet_loop [Memory] {s : Shape} : (Demand.loop s).meet = .ok () ↔ s.countable 1 = true := by
  rw [meet]
  by_cases counts : s.countable 1 = true
  · simp [counts]
  · exact iff_of_false (by rw [if_neg counts]; nofun) counts

theorem Kind.elementType?_two {kind : Kind} {x y : TensorType} (reads : kind.readPlaces = [0, 1])
    (typed : y.elementType = x.elementType) : kind.elementType? [x, y] = some x.elementType := by
  rw [elementType?, reads]
  exact if_pos (by simpa using typed)

def Kind.sliding : List Kind := [.convolution, .featuresGradient, .filtersGradient]

/-- Convolutions of elements of one type make no doubles: they are afforded where each of their own demands is met. -/
theorem Operator.afford_sliding [Memory] {op : Operator} {x y : TensorType} {result : Shape}
    (sliding : op.kind ∈ Kind.sliding) (typed : y.elementType = x.elementType) :
    op.afford [x, y] result = .ok () ↔ ∀ d ∈ op.ownDemands [x, y] result, d.meet = .ok () := by
  have reads : ∀ kind ∈ Kind.sliding, kind.readPlaces = [0, 1] := by decide
  have narrow : op.widens (some x.elementType) = false := by
    cases op with
    | convolution | featuresGradient | filtersGradient => cases x.elementType <;> rfl
    | _ => simp [Kind.sliding, Operator.kind] at sliding
  rw [afford_eq_ok, Kind.elementType?_two (reads _ sliding) typed]
  exact and_iff_right fun wide => absurd (narrow.symm.trans wide) Bool.false_ne_true

namespace ConvolutionAttributes
variable [Memory] {c : ConvolutionAttributes} {features filters result : Shape} {x y : TensorType}

/-- All windows over features and all products of cells can be counted, an empty axis as one cell. -/
structure Countable (c : ConvolutionAttributes) (features filters result : Shape) : Prop where
  windows : (c.windowing.sweep features (filters.getD 2 0) (filters.getD 3 0)).Holdable
  products : Shape.volume (Shape.filled (result ++ filters.drop 1)) < Shape.limit

/-- There is room for features with margins, arrays can have all windows over them, and the products of cells can be
counted in the order of a convolution and in those of its two gradients. -/
structure Spacious (c : ConvolutionAttributes) (features filters result : Shape) : Prop where
  framed : (c.windowing.framed features).room = .ok ()
  windows : (c.windowing.sweep features (filters.getD 2 0) (filters.getD 3 0)).Holdable
  products : Shape.countable 1 (result ++ filters.drop 1) = true
  spread : filters.getD 2 0 = 0 ∨ filters.getD 3 0 = 0 ∨ Shape.countable 1
    [result.getD 0 0, filters.getD 1 0, result.getD 2 0, result.getD 3 0, filters.getD 0 0] = true
  gathered : Shape.countable 1 (filters ++ [result.getD 0 0, result.getD 2 0, result.getD 3 0]) = true

theorem afford_convolution (typed : y.elementType = x.elementType) (slid : c.shape x.shape y.shape = .ok result) :
    (Operator.convolution c).afford [x, y] result = .ok () ↔
      (c.windowing.framed x.shape).room = .ok () ∧
      (c.windowing.sweep x.shape (y.shape.getD 2 0) (y.shape.getD 3 0)).Holdable ∧
      Shape.countable 1 (result ++ y.shape.drop 1) = true := by
  obtain ⟨_, _, _, _, _, _, _, _, _, _, kernel, _⟩ := shape_eq_ok slid
  have own : (Operator.convolution c).ownDemands [x, y] result =
      [.array 4 (c.windowing.framed x.shape), .view (c.windowing.sweep x.shape (y.shape.getD 2 0) (y.shape.getD 3 0)),
        .loop (result ++ y.shape.drop 1)] := by
    simp only [Operator.ownDemands, List.map_cons, List.map_nil, kernel]
    rfl
  rw [Operator.afford_sliding (by simp [Operator.kind, Kind.sliding]) typed, own, List.forall_mem_cons,
    List.forall_mem_cons, List.forall_mem_singleton, Demand.meet_view, Demand.meet_loop]
  rfl

theorem afford_featuresGradient (typed : y.elementType = x.elementType) (stated : c.features = some features)
    (slid : c.shape features y.shape = .ok x.shape) :
    (Operator.featuresGradient c).afford [x, y] features = .ok () ↔
      (c.windowing.framed features).room = .ok () ∧
      (y.shape.getD 2 0 = 0 ∨ y.shape.getD 3 0 = 0 ∨ Shape.countable 1
        [x.shape.getD 0 0, y.shape.getD 1 0, x.shape.getD 2 0, x.shape.getD 3 0, y.shape.getD 0 0] = true) := by
  obtain ⟨_, _, _, _, _, rows, columns, _, _, _, kernel, _⟩ := shape_eq_ok slid
  have own : (Operator.featuresGradient c).ownDemands [x, y] features =
      .array 4 (c.windowing.framed features) :: if rows = 0 ∨ columns = 0 then []
        else [.loop [x.shape.getD 0 0, y.shape.getD 1 0, x.shape.getD 2 0, x.shape.getD 3 0, y.shape.getD 0 0]] := by
    have read : (Operator.featuresGradient c).kind.elementType? [x, y] = some x.elementType :=
      Kind.elementType?_two rfl typed
    simp only [Operator.ownDemands, List.map_cons, List.map_nil, kernel, read, stated]
    rfl
  rw [Operator.afford_sliding (by simp [Operator.kind, Kind.sliding]) typed, own, List.forall_mem_cons]
  refine and_congr_right' ?_
  rw [kernel]
  by_cases none : rows = 0 ∨ columns = 0
  · rw [if_pos none]
    exact iff_of_true (by simp) (none.imp_right .inl)
  · rw [if_neg none, List.forall_mem_singleton, Demand.meet_loop, ← or_assoc]
    exact (or_iff_right none).symm

theorem afford_filtersGradient (typed : y.elementType = x.elementType) :
    (Operator.filtersGradient c).afford [x, y] filters = .ok () ↔
      (c.windowing.framed y.shape).room = .ok () ∧
      (c.windowing.sweep y.shape (filters.getD 2 0) (filters.getD 3 0)).Holdable ∧
      Shape.countable 1 (filters ++ [x.shape.getD 0 0, x.shape.getD 2 0, x.shape.getD 3 0]) = true := by
  have own : (Operator.filtersGradient c).ownDemands [x, y] filters =
      [.array 4 (c.windowing.framed y.shape), .view (c.windowing.sweep y.shape (filters.getD 2 0) (filters.getD 3 0)),
        .loop (filters ++ [x.shape.getD 0 0, x.shape.getD 2 0, x.shape.getD 3 0])] := rfl
  rw [Operator.afford_sliding (by simp [Operator.kind, Kind.sliding]) typed, own, List.forall_mem_cons,
    List.forall_mem_cons, List.forall_mem_singleton, Demand.meet_view, Demand.meet_loop]
  rfl

namespace Spacious

theorem of_countable (slid : c.shape features filters = .ok result)
    (framed : (c.windowing.framed features).room = .ok ()) (countable : c.Countable features filters result) :
    c.Spacious features filters result := by
  obtain ⟨windows, products⟩ := countable
  obtain ⟨batch, channels, _, _, outputs, rows, columns, tall, wide, rfl, rfl, rfl⟩ := shape_eq_ok slid
  have counted : ∀ {t : Shape}, t.filled.volume ≤ Shape.volume
      (Shape.filled [batch, outputs, tall, wide, channels, rows, columns]) → Shape.countable 1 t = true :=
    fun fewer => Shape.countable_of_filled (by rw [Nat.one_mul]; exact lt_of_le_of_lt fewer products)
  exact ⟨framed, windows, counted le_rfl, .inr (.inr (counted (Shape.volume_spread ..))),
    counted (Shape.volume_gathered ..).le⟩

/-- What a convolution is afforded serves its gradients, as far as the filters are within the limits. -/
theorem of_convolution (slides : Kind.Slides c) (slid : c.shape features filters = .ok result)
    (framed : (c.windowing.framed features).room = .ok ())
    (windows : (c.windowing.sweep features (filters.getD 2 0) (filters.getD 3 0)).Holdable)
    (products : Shape.countable 1 (result ++ filters.drop 1) = true) (limited : filters.Limited) :
    c.Spacious features filters result := by
  obtain ⟨batch, channels, height, width, outputs, rows, columns, tall, wide, rfl, rfl, rfl, down, right⟩ :=
    c.shape_covered slides slid
  have tall_pos : 1 ≤ tall := down.counted ▸ Nat.succ_pos _
  have wide_pos : 1 ≤ wide := right.counted ▸ Nat.succ_pos _
  have gathered := Shape.countable_gathered tall_pos wide_pos products limited.holdable.volume_lt
  by_cases windowless : rows = 0 ∨ columns = 0
  · exact ⟨framed, windows, products, windowless.imp_right .inl, gathered⟩
  have short := down.count_le (Nat.one_le_iff_ne_zero.mpr fun none => windowless (.inl none))
  have narrow := right.count_le (Nat.one_le_iff_ne_zero.mpr fun none => windowless (.inr none))
  have fewer : Shape.volume (Shape.filled [batch, channels, tall, wide]) ≤
      Shape.volume (Shape.filled (c.windowing.framed [batch, channels, height, width])) :=
    Shape.volume_filled_le (.cons (.inl le_rfl) (.cons (.inl le_rfl) (.cons (.inl short) (.cons (.inl narrow) .nil))))
  have spread := Shape.countable_spread tall_pos wide_pos products windowless
    (fewer.trans_lt (Shape.room_eq_ok.mp framed).1.volume_lt)
  exact ⟨framed, windows, products, .inr (.inr spread), gathered⟩

end Spacious
end ConvolutionAttributes
end TensorDag
