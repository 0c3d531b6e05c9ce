import TensorDag.Operator.Evaluation
import TensorDag.Proofs.Sliding
import TensorDag.Proofs.Windows

/-!
Pools and places of minima step by step, with shapes of their own. Features are cut to whole windows, their axes are
parted, and the cells of each window come to lie along one axis, over which the maximum is taken. A gradient goes to
the first maximum of each window, and the windows the same way back into features of zeros. Where the rules accept the
windows every step goes through, and the cells are those of `Tensor.maxpool` and `Tensor.maxpoolGradient`.
-/
namespace TensorDag
open Result (bind_eq_ok)

namespace Shape
variable {s t : Shape} {index : Index}

theorem indices_eq (s : Shape) : indices s = (List.range (volume s)).map s.index := by
  refine List.ext_getElem? fun place => ?_
  by_cases below : place < volume s
  · have listed := indices_offset (contains_index below)
    rw [offset_index below] at listed
    rw [listed, List.getElem?_map, List.getElem?_range below]
    rfl
  · have long : (indices s).length ≤ place := by rw [length_indices]; exact Nat.not_lt.mp below
    have short : ((List.range (volume s)).map s.index).length ≤ place := by simpa using Nat.not_lt.mp below
    rw [List.getElem?_eq_none long, List.getElem?_eq_none short]

theorem map_indices {α : Type} {f g : Index → α} (volumes : volume t = volume s)
    (same : ∀ i, Contains s i → g (t.index (offset s i)) = f i) : (indices t).map g = (indices s).map f := by
  rw [indices_eq t, indices_eq s, volumes, List.map_map, List.map_map]
  refine List.map_congr_left fun place below => ?_
  have inside := contains_index (List.mem_range.mp below)
  have here := same _ inside
  rwa [offset_index (List.mem_range.mp below)] at here

theorem contains_one {n : Nat} (inside : Contains [n] index) : ∃ k, index = [k] ∧ k < n := by
  obtain ⟨k, _, rfl, below, inside⟩ := contains_cons inside
  cases List.eq_nil_of_length_eq_zero inside.length
  exact ⟨k, rfl, below⟩

theorem filled_of_volume (some : volume s ≠ 0) : s.filled = s := by
  induction s with
  | nil => rfl
  | cons d rest ih =>
    obtain ⟨here, later⟩ := Nat.mul_ne_zero_iff.mp some
    exact (List.filter_cons_of_pos (by simpa using here)).trans (congrArg (d :: ·) (ih later))

theorem filled_append (s t : Shape) : filled (s ++ t) = filled s ++ filled t := List.filter_append ..

end Shape

namespace Tiles
variable {batch channels height width down right tall wide : Nat}

theorem cell_lt {count size i k : Nat} (window : i < count) (cell : k < size) : i * size + k < count * size :=
  calc i * size + k < i * size + size := Nat.add_lt_add_left cell _
    _ = (i + 1) * size := (Nat.succ_mul i size).symm
    _ ≤ count * size := Nat.mul_le_mul_right size window

theorem cells_le (tiles : Tiles down right tall wide height width) :
    1 ≤ tall * down * (wide * right) ∧ tall * down * (wide * right) ≤ height * width := by
  obtain ⟨⟨down, right⟩, ⟨tall, wide⟩, rows, columns⟩ := tiles
  exact ⟨Nat.mul_pos (Nat.mul_pos tall down) (Nat.mul_pos wide right), Nat.mul_le_mul rows columns⟩

theorem holdable (tiles : Tiles down right tall wide height width) {s : Shape}
    (held : Shape.Holdable [batch, channels, height, width]) (few : s.length ≤ 4)
    (cells : s.volume = tall * down * (wide * right)) : Shape.Holdable ([batch, channels] ++ s) := by
  obtain ⟨some, fewer⟩ := tiles.cells_le
  have whole : Shape.volume [height, width] = height * width := by simp [Shape.volume]
  have field : Shape.filled [height, width] = [height, width] := Shape.filled_of_volume (by omega)
  have parts : Shape.filled s = s := Shape.filled_of_volume (by omega)
  have bytes : 4 * Shape.volume (Shape.filled ([batch, channels] ++ [height, width])) < Shape.limit := held.bytes
  rw [Shape.filled_append, field, Shape.volume_append, whole] at bytes
  refine ⟨by simp [Shape.maxRank]; omega, ?_⟩
  rw [Shape.filled_append, parts, Shape.volume_append, cells]
  exact lt_of_le_of_lt (Nat.mul_le_mul_left 4 (Nat.mul_le_mul_left _ fewer)) bytes

end Tiles

namespace Tensor
variable {α : Type}

/-- The same cells under another shape, which arrays can have. -/
def reshaped (shape : Shape) (t : Tensor α) : Result (Tensor α) :=
  if Shape.volume shape = Shape.volume t.shape then (t.reshape shape).held else .fault .doesNotStretch

theorem reshaped_eq {t : Tensor α} {shape : Shape} (volumes : Shape.volume shape = Shape.volume t.shape)
    (holds : shape.Holdable) : t.reshaped shape = .ok (t.reshape shape) :=
  (if_pos volumes).trans (held_eq holds)

theorem reshape_cell {t : Tensor α} {shape : Shape} {i j : Index} (inside : Shape.Contains t.shape j)
    (place : Shape.offset shape i = Shape.offset t.shape j) : (t.reshape shape).cell i = t.cell j := by
  show t.cell (Shape.index t.shape (Shape.offset shape i)) = _
  rw [place, Shape.index_offset inside]

/-- The cells of each window one after another along a last axis; cells in no window are left out. -/
def tiles (dims : Nat × Nat) (x : Tensor α) : Result (Tensor α) := do
  let lead := x.shape.take 2
  let tall := x.shape.getD 2 0 / dims.1
  let wide := x.shape.getD 3 0 / dims.2
  let trimmed := x.slice [0, 0, 0, 0] (List.zipWith min (lead ++ [tall * dims.1, wide * dims.2]) x.shape)
  let parted ← trimmed.reshaped (lead ++ [tall, dims.1, wide, dims.2])
  (parted.transpose [0, 1, 2, 4, 3, 5]).reshaped (lead ++ [tall, wide, dims.1 * dims.2])

variable {x : Tensor α} {batch channels height width down right : Nat}

theorem tiles_eq (shape : x.shape = [batch, channels, height, width]) (holds : x.shape.Holdable)
    (tiled : Tiles down right (height / down) (width / right) height width) :
    ∃ t, x.tiles (down, right) = .ok t ∧
      t.shape = [batch, channels, height / down, width / right, down * right] ∧
      ∀ b c y z i j, Shape.Contains [batch, channels, height / down, width / right, down, right] [b, c, y, z, i, j] →
        t.cell [b, c, y, z, i * right + j] = x.cell [b, c, y * down + i, z * right + j] := by
  obtain ⟨s, cell⟩ := x
  obtain rfl : s = [batch, channels, height, width] := shape
  let trimmed : Tensor α := slice [0, 0, 0, 0] (List.zipWith min
    [batch, channels, height / down * down, width / right * right] [batch, channels, height, width])
    ⟨[batch, channels, height, width], cell⟩
  have cut : trimmed.shape = [batch, channels, height / down * down, width / right * right] := by
    simp [trimmed, slice, Nat.min_eq_left tiled.rows, Nat.min_eq_left tiled.columns]
  let parted := trimmed.reshape [batch, channels, height / down, down, width / right, right]
  let turned := parted.transpose [0, 1, 2, 4, 3, 5]
  have dims : turned.shape = [batch, channels, height / down, width / right, down, right] := rfl
  have first : trimmed.reshaped [batch, channels, height / down, down, width / right, right] = .ok parted :=
    reshaped_eq (by rw [cut]; simp only [Shape.volume]; ring)
      (tiled.holdable (s := [height / down, down, width / right, right]) holds (by simp)
        (by simp only [Shape.volume]; ring))
  have second : turned.reshaped [batch, channels, height / down, width / right, down * right] = .ok _ :=
    reshaped_eq (by rw [dims]; simp only [Shape.volume]; ring)
      (tiled.holdable (s := [height / down, width / right, down * right]) holds (by simp)
        (by simp only [Shape.volume]; ring))
  refine ⟨_, bind_eq_ok.mpr ⟨parted, first, second⟩, rfl, fun b c y z i j inside => ?_⟩
  obtain ⟨inB, inC, inY, inZ, inI, inJ, -⟩ := id inside
  -- backwards through the steps: both reshapes keep the place of a cell in row-major order
  calc _ = turned.cell [b, c, y, z, i, j] := reshape_cell inside (by
        rw [dims]; simp only [Shape.offset, Shape.volume]; ring)
    _ = parted.cell [b, c, y, i, z, j] := rfl
    _ = trimmed.cell [b, c, y * down + i, z * right + j] := reshape_cell
        (by rw [cut]; exact ⟨inB, inC, Tiles.cell_lt inY inI, Tiles.cell_lt inZ inJ, trivial⟩) (by
          rw [cut]; simp only [Shape.offset, Shape.volume]; ring)
    _ = cell [b, c, y * down + i, z * right + j] := by simp [trimmed, slice]

/-- Windows laid side by side: the cells of each come from a last axis. -/
def untiled (shape : Shape) (dims : Nat × Nat) (t : Tensor α) : Result (Tensor α) := do
  let lead := shape.take 2
  let tall := shape.getD 2 0 / dims.1
  let wide := shape.getD 3 0 / dims.2
  let parted ← t.reshaped (lead ++ [tall, wide, dims.1, dims.2])
  (parted.transpose [0, 1, 2, 4, 3, 5]).reshaped (lead ++ [tall * dims.1, wide * dims.2])

theorem untiled_eq {t : Tensor α} (holds : Shape.Holdable [batch, channels, height, width])
    (tiled : Tiles down right (height / down) (width / right) height width)
    (shape : t.shape = [batch, channels, height / down, width / right, down * right]) :
    ∃ u, t.untiled [batch, channels, height, width] (down, right) = .ok u ∧
      u.shape = [batch, channels, height / down * down, width / right * right] ∧
      ∀ b c y z i j, Shape.Contains [batch, channels, height / down, width / right, down, right] [b, c, y, z, i, j] →
        u.cell [b, c, y * down + i, z * right + j] = t.cell [b, c, y, z, i * right + j] := by
  let parted := t.reshape [batch, channels, height / down, width / right, down, right]
  let turned := parted.transpose [0, 1, 2, 4, 3, 5]
  have dims : turned.shape = [batch, channels, height / down, down, width / right, right] := rfl
  have first : t.reshaped [batch, channels, height / down, width / right, down, right] = .ok parted :=
    reshaped_eq (by rw [shape]; simp only [Shape.volume]; ring)
      (tiled.holdable (s := [height / down, width / right, down, right]) holds (by simp)
        (by simp only [Shape.volume]; ring))
  have second : turned.reshaped [batch, channels, height / down * down, width / right * right] = .ok _ :=
    reshaped_eq (by rw [dims]; simp only [Shape.volume]; ring)
      (tiled.holdable (s := [height / down * down, width / right * right]) holds (by simp)
        (by simp only [Shape.volume]; ring))
  refine ⟨_, bind_eq_ok.mpr ⟨parted, first, second⟩, rfl, fun b c y z i j inside => ?_⟩
  obtain ⟨inB, inC, inY, inZ, inI, inJ, -⟩ := inside
  calc _ = turned.cell [b, c, y, i, z, j] := reshape_cell ⟨inB, inC, inY, inI, inZ, inJ, trivial⟩ (by
        rw [dims]; simp only [Shape.offset, Shape.volume]; ring)
    _ = parted.cell [b, c, y, z, i, j] := rfl
    _ = t.cell [b, c, y, z, i * right + j] := reshape_cell
        (by rw [shape]; exact ⟨inB, inC, inY, inZ, Tiles.cell_lt inI inJ, trivial⟩) (by
          rw [shape]; simp only [Shape.offset, Shape.volume]; ring)

variable {t g : Tensor α} {b c y z : Nat}

theorem map_window (cells : ∀ i j, i < down → j < right →
      t.cell [b, c, y, z, i * right + j] = x.cell [b, c, y * down + i, z * right + j]) :
    (Shape.indices [down * right]).map (fun inner => t.cell ([b, c, y, z] ++ inner)) =
      window (down, right) x b c y z := by
  refine Shape.map_indices (by simp [Shape.volume]) fun index inside => ?_
  obtain ⟨i, j, rfl, row, column⟩ := Shape.contains_two inside
  refine Eq.trans ?_ (cells i j row column)
  simp [Shape.index, Shape.offset, Shape.volume]

def deepened (t : Tensor α) : Tensor α := ⟨t.shape ++ [1], fun index => t.cell index.dropLast⟩

/-- Cells along a last axis, each with the one cell that another tensor has for them. -/
theorem stretched_deepened {s : Shape} {n : Nat} (f : α → α → α) (left : t.shape = s ++ [n]) (right : g.shape = s)
    (holds : t.shape.Holdable) :
    ∃ r, Operator.stretched f t g.deepened = .ok r ∧ r.shape = s ++ [n] ∧
      ∀ index, Shape.Contains (s ++ [n]) index → r.cell index = f (t.cell index) (g.cell index.dropLast) := by
  have stretches : Shape.Stretches (s ++ [1]) (s ++ [n]) :=
    ⟨[], s ++ [n], rfl, List.rel_append (List.forall₂_same.mpr fun _ _ => .inl rfl) (.cons (.inr rfl) .nil)⟩
  rw [left] at holds
  have common : Shape.broadcast? t.shape g.deepened.shape = some (s ++ [n]) := by
    rw [left, deepened, right]
    exact (stretches.broadcast?_holdable holds).1
  refine ⟨zipWith f (s ++ [n]) t g.deepened, by rw [Operator.stretched, common], rfl, fun index inside => ?_⟩
  obtain ⟨lead, last, rfl, first, inner⟩ := Shape.contains_append_iff.mp inside
  obtain ⟨k, rfl, _⟩ := Shape.contains_one inner
  have long : (lead ++ [k]).length = (s ++ [1]).length := by simp [first.length]
  have narrowed : Shape.narrow (s ++ [1]) (lead ++ [k]) = lead ++ [0] := by
    rw [Shape.narrow_eq_clamp long, Shape.clamp, List.zipWith_append first.length.symm]
    exact congrArg (· ++ [0]) (Shape.clamp_self first)
  show f (t.cell (Shape.narrow t.shape _)) (g.cell (Shape.narrow (g.shape ++ [1]) _).dropLast) = _
  rw [left, right, Shape.narrow_self inside, narrowed, List.dropLast_concat, List.dropLast_concat]

theorem notEmptyAlong_window {tall wide : Nat} (tiled : Tiles down right tall wide height width)
    (shape : t.shape = [batch, channels, tall, wide, down * right]) : Operator.notEmptyAlong [4] t = .ok t := by
  have along : Shape.select t.shape [4] = [down * right] := by rw [shape]; rfl
  have positive := Nat.mul_pos tiled.sizes.1 tiled.sizes.2
  refine if_neg ?_
  rw [along]
  simp only [Shape.volume]
  omega

section
variable [Element α]

/-- The maximum of each window, over the axis of its cells. -/
def maxpoolBySteps (dims : Nat × Nat) (x : Tensor α) : Result (Tensor α) := do
  return (← Operator.notEmptyAlong [4] (← x.tiles dims)).maximum [4]

theorem maxpoolBySteps_eq (shape : x.shape = [batch, channels, height, width]) (holds : x.shape.Holdable)
    (tiled : Tiles down right (height / down) (width / right) height width) :
    ∃ t, x.maxpoolBySteps (down, right) = .ok t ∧ t.Same (x.maxpool (down, right)) := by
  obtain ⟨t, made, dims, cells⟩ := tiles_eq shape holds tiled
  have along : Shape.select t.shape [4] = [down * right] := by rw [dims]; rfl
  have some : Operator.notEmptyAlong [4] t = .ok t := notEmptyAlong_window tiled dims
  have left : Shape.keep t.shape [4] = [batch, channels, height / down, width / right] := by rw [dims]; rfl
  have whole : (t.maximum [4]).shape = [batch, channels, height / down, width / right] := by
    rw [maximum, if_neg (by simp), left]
  refine ⟨_, bind_eq_ok.mpr ⟨t, made, bind_eq_ok.mpr ⟨t, some, rfl⟩⟩, ?_, fun index inside => ?_⟩
  · rw [whole, maxpool, shape]
    rfl
  · obtain ⟨b, c, y, z, rfl, inB, inC, inY, inZ⟩ := Shape.contains_four (whole ▸ inside)
    have same := map_window (t := t) (b := b) (c := c) (y := y) (z := z) fun i j row column =>
      cells b c y z i j ⟨inB, inC, inY, inZ, row, column, trivial⟩
    rw [maximum, if_neg (by simp)]
    show greatest ((Shape.indices (Shape.select t.shape [4])).map _) = greatest (window (down, right) x b c y z)
    rw [← same, along]
    refine congrArg greatest (List.map_congr_left fun inner listed => ?_)
    obtain ⟨k, rfl, _⟩ := Shape.contains_one (Shape.mem_indices.mp listed)
    rw [dims]
    rfl

/-- The cells along the last axis that are the first maximum there. -/
def hits (t : Tensor α) : Tensor α :=
  ⟨t.shape, fun index =>
    let cells := (Shape.indices [t.shape.getLastD 0]).map fun inner => t.cell (index.dropLast ++ inner)
    if placeBy (fun a b => Element.less b a) cells = index.getLastD 0 then 1 else 0⟩

theorem hits_cell {k : Nat} (shape : x.shape = [batch, channels, height, width])
    (dims : t.shape = [batch, channels, height / down, width / right, down * right])
    (inside : Shape.Contains [batch, channels, height / down, width / right] [b, c, y, z])
    (cells : ∀ i j, i < down → j < right →
      t.cell [b, c, y, z, i * right + j] = x.cell [b, c, y * down + i, z * right + j]) :
    t.hits.cell [b, c, y, z, k] =
      if ((places (down, right) x).stored 0).cell [b, c, y, z] = k then 1 else 0 := by
  have pooled : (places (down, right) x).shape = [batch, channels, height / down, width / right] := by
    rw [places, maxpool, shape]
    rfl
  rw [stored_cell 0 (pooled ▸ inside)]
  show (if placeBy _ ((Shape.indices [t.shape.getLastD 0]).map fun inner => t.cell ([b, c, y, z] ++ inner)) = k
    then (1 : α) else 0) = if placeBy _ (window (down, right) x b c y z) = k then 1 else 0
  rw [← map_window cells, dims]
  rfl

/-- A part in the first cells along each axis, and zeros elsewhere. -/
def cornered (shape : Shape) (part : Tensor α) : Result (Tensor α) :=
  if List.zipWith min part.shape shape ≠ part.shape then .fault .doesNotStretch
  else .ok ⟨shape, fun index =>
    if (List.zipWith (fun i dim => decide (i < dim)) index part.shape).all id then part.cell index else 0⟩

/-- A gradient for each window goes to its first maximum, and the windows back to where they lie. The places within a
window, and those of the maxima, are words of 64 bits. -/
def maxpoolGradientBySteps [Memory] (dims : Nat × Nat) (g x : Tensor α) : Result (Tensor α) := do
  let t ← x.tiles dims
  Shape.room [dims.1 * dims.2] 8
  Shape.room t.shape.dropLast 8
  let routed ← Operator.stretched (· * ·) (← Operator.notEmptyAlong [4] t).hits g.deepened
  cornered x.shape (← routed.untiled x.shape dims)

theorem maxpoolGradientBySteps_eq [Memory] (shape : x.shape = [batch, channels, height, width])
    (holds : x.shape.Holdable) (tiled : Tiles down right (height / down) (width / right) height width)
    (gradient : g.shape = [batch, channels, height / down, width / right])
    (room : Shape.room [down * right] 8 = .ok ())
    (room' : Shape.room [batch, channels, height / down, width / right] 8 = .ok ()) :
    ∃ t, g.maxpoolGradientBySteps (down, right) x = .ok t ∧ t.Same (maxpoolGradient (down, right) g x) := by
  obtain ⟨t, made, dims, cells⟩ := tiles_eq shape holds tiled
  have field : Shape.Holdable [batch, channels, height, width] := shape ▸ holds
  obtain ⟨r, routed, whole, products⟩ := stretched_deepened (t := t.hits) (g := g)
    (s := [batch, channels, height / down, width / right]) (· * ·) dims gradient
    (dims ▸ tiled.holdable (s := [height / down, width / right, down * right]) field (by simp)
      (by simp only [Shape.volume]; ring))
  obtain ⟨u, laid, size, spread⟩ := untiled_eq field tiled whole
  have corner : ¬List.zipWith min u.shape x.shape ≠ u.shape := by
    simp [size, shape, Nat.min_eq_left tiled.rows, Nat.min_eq_left tiled.columns]
  refine ⟨_, bind_eq_ok.mpr ⟨t, made, bind_eq_ok.mpr ⟨(), room, bind_eq_ok.mpr ⟨(), dims ▸ room',
    bind_eq_ok.mpr ⟨t, notEmptyAlong_window tiled dims, bind_eq_ok.mpr ⟨r, routed,
      bind_eq_ok.mpr ⟨u, shape ▸ laid, if_neg corner⟩⟩⟩⟩⟩⟩, rfl, fun index inside => ?_⟩
  obtain ⟨b, c, row, column, rfl, inB, inC, -, -⟩ := Shape.contains_four (shape ▸ inside)
  have covered : (List.zipWith (fun i dim => decide (i < dim)) [b, c, row, column] u.shape).all id = true ↔
      row / down < height / down ∧ column / right < width / right := by
    simp [size, inB, inC, Nat.div_lt_iff_lt_mul tiled.sizes.1, Nat.div_lt_iff_lt_mul tiled.sizes.2]
  have counts : row / down < (x.shape.getD 2 0) / down ∧ column / right < (x.shape.getD 3 0) / right ↔
      row / down < height / down ∧ column / right < width / right := by rw [shape]; rfl
  dsimp only [maxpoolGradient]
  -- a cell in some window gets what the window's own cell got; those in none stay zero on both sides
  by_cases both : row / down < height / down ∧ column / right < width / right
  · have upper := Nat.mod_lt row tiled.sizes.1
    have left := Nat.mod_lt column tiled.sizes.2
    have laid := spread b c _ _ _ _ ⟨inB, inC, both.1, both.2, upper, left, trivial⟩
    have product := products [b, c, row / down, column / right, row % down * right + column % right]
      ⟨inB, inC, both.1, both.2, Tiles.cell_lt upper left, trivial⟩
    have hit := hits_cell (k := row % down * right + column % right) shape dims ⟨inB, inC, both.1, both.2, trivial⟩
      fun i j upper left => cells b c _ _ i j ⟨inB, inC, both.1, both.2, upper, left, trivial⟩
    rw [Nat.div_add_mod', Nat.div_add_mod'] at laid
    rw [if_pos (covered.mpr both), if_pos (counts.mpr both), laid, product, hit]
    rfl
  · rw [if_neg (mt covered.mp both), if_neg (mt counts.mp both)]

/-- The place of a minimum along an axis, which is taken out and put back with one cell. -/
def argminBySteps (axis : Nat) (x : Tensor α) : Tensor Nat :=
  ⟨(x.shape.eraseIdx axis).insertIdx axis 1, fun index =>
    let outer := index.eraseIdx axis
    placeBy Element.less ((List.range (x.shape.getD axis 0)).map fun k => x.cell (outer.insertIdx axis k))⟩

theorem argminBySteps_same {axis : Nat} (inside : axis < x.shape.length) :
    (x.argminBySteps axis).Same (x.argmin axis) := by
  have kept : (x.argminBySteps axis).shape = Shape.replace x.shape axis 1 :=
    List.insertIdx_eraseIdx_self (Nat.ne_of_lt inside) 1
  refine ⟨kept, fun index within => ?_⟩
  have long : index.length = x.shape.length := by
    rw [kept] at within
    exact within.length.trans (List.length_set ..)
  refine congrArg (placeBy Element.less) (List.map_congr_left fun k _ => congrArg x.cell ?_)
  exact List.insertIdx_eraseIdx_self (Nat.ne_of_lt (long ▸ inside)) k

end

end Tensor
end TensorDag
