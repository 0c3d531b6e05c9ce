import Mathlib
import TensorDag.Proofs.Tiling
import TensorDag.Proofs.Wholes

/-!
Windows of whole elements. The scan for the greatest element of a window and the scan for its place go side by side,
and the place is that of the first cell with the greatest element. What is routed to a window goes to this cell alone,
so that what is gathered from a window, summed up over its cells, is read at this cell.
-/
namespace TensorDag

attribute [local instance] Int32.ring

theorem Tiles.split (i : Nat) {size k : Nat} (cell : k < size) :
    (i * size + k) / size = i ∧ (i * size + k) % size = k := by
  constructor
  · rw [Nat.mul_comm, Nat.mul_add_div (Nat.zero_lt_of_lt cell), Nat.div_eq_of_lt cell, Nat.add_zero]
  · rw [Nat.mul_comm, Nat.mul_add_mod, Nat.mod_eq_of_lt cell]

namespace Tensor
open Finset (range)

/-- The first of the greatest of some elements, and its place. -/
structure Leads (l : List Int32) (place : Nat) (value : Int32) : Prop where
  here : l[place]? = some value
  most : ∀ v ∈ l, v ≤ value
  first : ∀ k v, k < place → l[k]? = some v → v < value

namespace Leads
variable {l : List Int32} {place : Nat} {value : Int32}

theorem single (value : Int32) : Leads [value] 0 value := ⟨rfl, by simp, nofun⟩

theorem below (leads : Leads l place value) : place < l.length := (List.getElem?_eq_some_iff.mp leads.here).1

/-- One element more takes the lead if it is greater. -/
theorem step (leads : Leads l place value) (next : Int32) :
    Leads (l ++ [next]) (if value < next then l.length else place) (Element.maximum value next) := by
  obtain ⟨here, most, first⟩ := id leads
  by_cases greater : value < next
  · have leader : Element.maximum value next = next := if_neg (Int32.not_le.mpr greater)
    rw [if_pos greater, leader]
    constructor
    case here => exact List.getElem?_concat_length
    case most =>
      intro v member
      rcases List.mem_append.mp member with old | new
      · exact Int32.le_trans (most v old) (Int32.le_of_lt greater)
      · cases List.mem_singleton.mp new
        exact Int32.le_refl _
    case first =>
      intro k v before found
      rw [List.getElem?_append_left before] at found
      exact Int32.lt_of_le_of_lt (most v (List.mem_of_getElem? found)) greater
  · have leader : Element.maximum value next = value := if_pos (Int32.not_lt.mp greater)
    rw [if_neg greater, leader]
    constructor
    case here => rw [List.getElem?_append_left leads.below, here]
    case most =>
      intro v member
      rcases List.mem_append.mp member with old | new
      · exact most v old
      · cases List.mem_singleton.mp new
        exact Int32.not_lt.mp greater
    case first =>
      intro k v before found
      rw [List.getElem?_append_left (before.trans leads.below)] at found
      exact first k v before found

/-- Both scans, over the elements that are left. -/
theorem run (leads : Leads l place value) (rest : List Int32) :
    Leads (l ++ rest) (firstBy (fun a b => Element.less b a) l.length place value rest)
      (rest.foldl Element.maximum value) := by
  induction rest generalizing l place value with
  | nil => simpa [firstBy] using leads
  | cons next rest ih =>
    have later := ih (leads.step next)
    rw [List.append_assoc, List.length_append] at later
    have greater : (!Element.isUndefined value && (Element.less value next || Element.isUndefined next)) =
        decide (value < next) := Bool.or_false _
    rw [firstBy, greater, List.foldl_cons]
    by_cases taken : value < next
    · have leader : Element.maximum value next = next := if_neg (Int32.not_le.mpr taken)
      rw [if_pos taken, leader] at later
      rw [if_pos (decide_eq_true taken), leader]
      exact later
    · have leader : Element.maximum value next = value := if_pos (Int32.not_lt.mp taken)
      rw [if_neg taken, leader] at later
      rw [if_neg (by simpa using taken), leader]
      exact later

end Leads

theorem leads_greatest {l : List Int32} (some : l ≠ []) :
    Leads l (placeBy (fun a b => Element.less b a) l) (greatest l) := by
  cases l with
  | nil => exact absurd rfl some
  | cons first rest => exact (Leads.single first).run rest

example : placeBy (fun a b => Element.less b a) [(1 : Int32), 3, 3, 2] = 1 := by decide

variable {x g u t : Tensor Int32} {down right batch channels height width b c y z i j : Nat}

theorem window_cell (row : i < down) (column : j < right) :
    (window (down, right) x b c y z)[i * right + j]? = some (x.cell [b, c, y * down + i, z * right + j]) := by
  have inside : Shape.Contains [down, right] [i, j] := ⟨row, column, trivial⟩
  have listed := Shape.indices_offset inside
  have place : Shape.offset [down, right] [i, j] = i * right + j := by simp [Shape.offset, Shape.volume]
  rw [window, List.getElem?_map, ← place, listed]
  rfl

theorem length_window : (window (down, right) x b c y z).length = down * right := by
  rw [window, List.length_map, Shape.length_indices]
  simp [Shape.volume]

/-- The place, within a window, of the first of its greatest cells. -/
def foremost (dims : Nat × Nat) (x : Tensor Int32) (b c y z : Nat) : Nat :=
  placeBy (fun a b => Element.less b a) (window dims x b c y z)

theorem leads_window (sizes : 1 ≤ down ∧ 1 ≤ right) :
    Leads (window (down, right) x b c y z) (foremost (down, right) x b c y z)
      (greatest (window (down, right) x b c y z)) := by
  have some := Nat.mul_pos sizes.1 sizes.2
  rw [← length_window (x := x) (b := b) (c := c) (y := y) (z := z)] at some
  exact leads_greatest (List.ne_nil_of_length_pos some)

theorem foremost_lt (sizes : 1 ≤ down ∧ 1 ≤ right) : foremost (down, right) x b c y z < down * right := by
  rw [← length_window (x := x) (b := b) (c := c) (y := y) (z := z)]
  exact (leads_window sizes).below

/-- A cell of a window is greater than all cells of the window before it, row by row, and no less than all others. -/
structure Peak (dims : Nat × Nat) (x : Tensor Int32) (b c y z i j : Nat) : Prop where
  row : i < dims.1
  column : j < dims.2
  most : ∀ i' j', i' < dims.1 → j' < dims.2 →
    x.cell [b, c, y * dims.1 + i', z * dims.2 + j'] ≤ x.cell [b, c, y * dims.1 + i, z * dims.2 + j]
  first : ∀ i' j', i' < dims.1 → j' < dims.2 → (i' < i ∨ i' = i ∧ j' < j) →
    x.cell [b, c, y * dims.1 + i', z * dims.2 + j'] < x.cell [b, c, y * dims.1 + i, z * dims.2 + j]

theorem cell_lt_iff {i' j' : Nat} (column : j < right) (column' : j' < right) :
    i' * right + j' < i * right + j ↔ i' < i ∨ i' = i ∧ j' < j := by
  rcases Nat.lt_trichotomy i' i with above | rfl | under
  · exact iff_of_true ((Tiles.cell_lt above column').trans_le (Nat.le_add_right ..)) (.inl above)
  · simp
  · have after := Tiles.cell_lt under column
    exact iff_of_false (by omega) (by omega)

theorem peak_iff (row : i < down) (column : j < right) :
    Peak (down, right) x b c y z i j ↔ foremost (down, right) x b c y z = i * right + j := by
  have sizes : 1 ≤ down ∧ 1 ≤ right := ⟨Nat.zero_lt_of_lt row, Nat.zero_lt_of_lt column⟩
  have leads := leads_window (x := x) (b := b) (c := c) (y := y) (z := z) sizes
  have here := window_cell (x := x) (b := b) (c := c) (y := y) (z := z) row column
  constructor
  · intro peak
    -- the place of the scan is that of some cell, which is neither before the peak nor behind it
    have place := foremost_lt (x := x) (b := b) (c := c) (y := y) (z := z) sizes
    have upper := Nat.div_lt_of_lt_mul (Nat.mul_comm .. ▸ place)
    have left := Nat.mod_lt (foremost (down, right) x b c y z) sizes.2
    have found := window_cell (x := x) (b := b) (c := c) (y := y) (z := z) upper left
    rw [Nat.div_add_mod', leads.here] at found
    have value := Option.some.inj found
    rcases Nat.lt_trichotomy (foremost (down, right) x b c y z) (i * right + j) with before | same | behind
    · rw [← Nat.div_add_mod' (foremost (down, right) x b c y z) right, cell_lt_iff column left] at before
      have less := peak.first _ _ upper left before
      rw [← value] at less
      exact absurd (leads.most _ (List.mem_of_getElem? here)) (Int32.not_le.mpr less)
    · exact same
    · have less := leads.first _ _ behind here
      rw [value] at less
      exact absurd (peak.most _ _ upper left) (Int32.not_le.mpr less)
  · intro place
    rw [place] at leads
    have value := Option.some.inj (here.symm.trans leads.here)
    constructor
    case row => exact row
    case column => exact column
    case most =>
      intro i' j' row' column'
      rw [value]
      exact leads.most _ (List.mem_of_getElem? (window_cell row' column'))
    case first =>
      intro i' j' row' column' before
      rw [value]
      exact leads.first _ _ ((cell_lt_iff column column').mpr before) (window_cell row' column')

theorem exists_peak (sizes : 1 ≤ down ∧ 1 ≤ right) : ∃ i j, Peak (down, right) x b c y z i j := by
  have place := foremost_lt (x := x) (b := b) (c := c) (y := y) (z := z) sizes
  refine ⟨foremost (down, right) x b c y z / right, foremost (down, right) x b c y z % right, ?_⟩
  rw [peak_iff (Nat.div_lt_of_lt_mul (Nat.mul_comm .. ▸ place)) (Nat.mod_lt _ sizes.2), Nat.div_add_mod']

theorem maxpool_greatest (sizes : 1 ≤ down ∧ 1 ≤ right) :
    IsGreatest {v | ∃ i j, i < down ∧ j < right ∧ v = x.cell [b, c, y * down + i, z * right + j]}
      ((maxpool (down, right) x).cell [b, c, y, z]) := by
  have leads := leads_window (x := x) (b := b) (c := c) (y := y) (z := z) sizes
  constructor
  · have place := foremost_lt (x := x) (b := b) (c := c) (y := y) (z := z) sizes
    have upper := Nat.div_lt_of_lt_mul (Nat.mul_comm .. ▸ place)
    have left := Nat.mod_lt (foremost (down, right) x b c y z) sizes.2
    have found := window_cell (x := x) (b := b) (c := c) (y := y) (z := z) upper left
    rw [Nat.div_add_mod', leads.here] at found
    exact ⟨_, _, upper, left, Option.some.inj found⟩
  · rintro v ⟨i, j, row, column, rfl⟩
    exact leads.most _ (List.mem_of_getElem? (window_cell row column))

/-! What is routed to the windows of features. -/

section routing
variable (shape : x.shape = [batch, channels, height, width])
  (tiled : Tiles down right (height / down) (width / right) height width)
include shape

/-- A cell of a window is handed what the window is handed, if it is the place of the window. -/
theorem maxpoolGradient_cell
    (inside : Shape.Contains [batch, channels, height / down, width / right, down, right] [b, c, y, z, i, j]) :
    (maxpoolGradient (down, right) g x).cell [b, c, y * down + i, z * right + j] =
      (if foremost (down, right) x b c y z = i * right + j then 1 else 0) * g.cell [b, c, y, z] := by
  obtain ⟨inB, inC, inY, inZ, inI, inJ, -⟩ := inside
  have rows := Tiles.split y inI
  have columns := Tiles.split z inJ
  have pooled : (places (down, right) x).shape = [batch, channels, height / down, width / right] := by
    rw [places, maxpool, shape]
    rfl
  have place : ((places (down, right) x).stored 0).cell [b, c, y, z] = foremost (down, right) x b c y z :=
    stored_cell 0 (pooled ▸ ⟨inB, inC, inY, inZ, trivial⟩)
  have within : y < x.shape.getD 2 0 / down ∧ z < x.shape.getD 3 0 / right := by
    rw [shape]
    exact ⟨inY, inZ⟩
  dsimp only [maxpoolGradient]
  rw [rows.1, rows.2, columns.1, columns.2, if_pos within, place]

include tiled

theorem maxpoolGradient_outside {row column : Nat}
    (outside : ¬(row < height / down * down ∧ column < width / right * right)) :
    (maxpoolGradient (down, right) g x).cell [b, c, row, column] = 0 := by
  have within : ¬(row / down < x.shape.getD 2 0 / down ∧ column / right < x.shape.getD 3 0 / right) := by
    rw [shape]
    rwa [← Nat.div_lt_iff_lt_mul tiled.sizes.1, ← Nat.div_lt_iff_lt_mul tiled.sizes.2] at outside
  exact if_neg within

end routing

/-- The cell that is the peak of a window. -/
def summit (dims : Nat × Nat) (x : Tensor Int32) : Index → Index
  | [b, c, y, z] =>
    let place := foremost dims x b c y z
    [b, c, y * dims.1 + place / dims.2, z * dims.2 + place % dims.2]
  | index => index

section summit
variable (shape : x.shape = [batch, channels, height, width])
  (tiled : Tiles down right (height / down) (width / right) height width)

include tiled in
theorem foremost_within :
    foremost (down, right) x b c y z / right < down ∧ foremost (down, right) x b c y z % right < right :=
  ⟨Nat.div_lt_of_lt_mul (Nat.mul_comm .. ▸ foremost_lt tiled.sizes), Nat.mod_lt _ tiled.sizes.2⟩

include shape tiled

theorem contains_summit {w : Index} (inside : Shape.Contains [batch, channels, height / down, width / right] w) :
    Shape.Contains x.shape (summit (down, right) x w) := by
  obtain ⟨b, c, y, z, rfl, inB, inC, inY, inZ⟩ := Shape.contains_four inside
  obtain ⟨upper, left⟩ := foremost_within (x := x) (b := b) (c := c) (y := y) (z := z) tiled
  rw [shape]
  exact ⟨inB, inC, (Tiles.cell_lt inY upper).trans_le tiled.rows, (Tiles.cell_lt inZ left).trans_le tiled.columns,
    trivial⟩

theorem maxpoolGradient_summit {w : Index}
    (inside : Shape.Contains [batch, channels, height / down, width / right] w) :
    (maxpoolGradient (down, right) g x).cell (summit (down, right) x w) = g.cell w := by
  obtain ⟨b, c, y, z, rfl, inB, inC, inY, inZ⟩ := Shape.contains_four inside
  obtain ⟨upper, left⟩ := foremost_within (x := x) (b := b) (c := c) (y := y) (z := z) tiled
  rw [summit, maxpoolGradient_cell shape ⟨inB, inC, inY, inZ, upper, left, trivial⟩, Nat.div_add_mod', if_pos rfl]
  exact Int32.one_mul _

/-- Cells that are no peak of a window are handed nothing. -/
theorem maxpoolGradient_off {index : Index} (inside : Shape.Contains x.shape index)
    (off : ∀ w, Shape.Contains [batch, channels, height / down, width / right] w →
      summit (down, right) x w ≠ index) : (maxpoolGradient (down, right) g x).cell index = 0 := by
  obtain ⟨b, c, row, column, rfl, inB, inC, -, -⟩ := Shape.contains_four (shape ▸ inside)
  by_cases covered : row < height / down * down ∧ column < width / right * right
  · have inY := (Nat.div_lt_iff_lt_mul tiled.sizes.1).mpr covered.1
    have inZ := (Nat.div_lt_iff_lt_mul tiled.sizes.2).mpr covered.2
    have upper := Nat.mod_lt row tiled.sizes.1
    have left := Nat.mod_lt column tiled.sizes.2
    have routed := maxpoolGradient_cell (g := g) shape
      (show Shape.Contains _ [b, c, row / down, column / right, row % down, column % right] from
        ⟨inB, inC, inY, inZ, upper, left, trivial⟩)
    have other : foremost (down, right) x b c (row / down) (column / right) ≠
        row % down * right + column % right := by
      intro same
      refine off [b, c, row / down, column / right] ⟨inB, inC, inY, inZ, trivial⟩ ?_
      have place := Tiles.split (row % down) left
      rw [summit, same, place.1, place.2, Nat.div_add_mod', Nat.div_add_mod']
    rw [Nat.div_add_mod', Nat.div_add_mod', if_neg other] at routed
    rw [routed]
    exact Int32.zero_mul
  · exact maxpoolGradient_outside shape tiled covered

omit shape in
theorem summit_injective :
    Set.InjOn (summit (down, right) x) (Shape.box [batch, channels, height / down, width / right]) := by
  intro v first w second same
  obtain ⟨b, c, y, z, rfl, -⟩ := Shape.contains_four (Shape.mem_box.mp first)
  obtain ⟨b', c', y', z', rfl, -⟩ := Shape.contains_four (Shape.mem_box.mp second)
  obtain ⟨upper, left⟩ := foremost_within (x := x) (b := b) (c := c) (y := y) (z := z) tiled
  obtain ⟨upper', left'⟩ := foremost_within (x := x) (b := b') (c := c') (y := y') (z := z') tiled
  simp only [summit, List.cons.injEq, and_true] at same
  obtain ⟨rfl, rfl, rows, columns⟩ := same
  have row : y = y' :=
    (Tiles.split y upper).1.symm.trans ((congrArg (· / down) rows).trans (Tiles.split y' upper').1)
  have column : z = z' :=
    (Tiles.split z left).1.symm.trans ((congrArg (· / right) columns).trans (Tiles.split z' left').1)
  rw [row, column]

theorem dot_maxpoolGradient (gradient : g.shape = [batch, channels, height / down, width / right]) :
    dot u (maxpoolGradient (down, right) g x) =
      ∑ w ∈ Shape.box g.shape, g.cell w * u.cell (summit (down, right) x w) := by
  rw [gradient]
  refine (Finset.sum_of_injOn (summit (down, right) x) (summit_injective tiled) ?_ ?_ ?_).symm
  · intro w inside
    exact Shape.mem_box.mpr (contains_summit shape tiled (Shape.mem_box.mp inside))
  · intro index inside off
    rw [maxpoolGradient_off shape tiled (Shape.mem_box.mp inside) fun w within same =>
      off ⟨w, Shape.mem_box.mpr within, same⟩, mul_zero]
  · intro w inside
    rw [maxpoolGradient_summit shape tiled (Shape.mem_box.mp inside), mul_comm]

end summit

/-- A sum over the cells of a window of which one is hit. -/
theorem sum_hits {place : Nat} (f : Nat → Nat → Int32) (below : place < down * right) :
    ∑ i ∈ range down, ∑ j ∈ range right, (if place = i * right + j then 1 else 0) * f i j =
      f (place / right) (place % right) := by
  have left := Nat.mod_lt place (Nat.pos_of_mul_pos_left (Nat.zero_lt_of_lt below))
  have upper := Nat.div_lt_of_lt_mul (Nat.mul_comm .. ▸ below)
  have elsewhere : ∀ i j, j < right → (i ≠ place / right ∨ j ≠ place % right) → place ≠ i * right + j := by
    rintro i j column apart rfl
    rw [(Tiles.split i column).1, (Tiles.split i column).2] at apart
    exact apart.elim (· rfl) (· rfl)
  rw [Finset.sum_eq_single (place / right), Finset.sum_eq_single (place % right)]
  · rw [Nat.div_add_mod', if_pos rfl, one_mul]
  · intro j column apart
    rw [if_neg (elsewhere _ j (Finset.mem_range.mp column) (.inr apart)), zero_mul]
  · exact fun absent => absurd (Finset.mem_range.mpr left) absent
  · intro i _ apart
    refine Finset.sum_eq_zero fun j column => ?_
    rw [if_neg (elsewhere i j (Finset.mem_range.mp column) (.inl apart)), zero_mul]
  · exact fun absent => absurd (Finset.mem_range.mpr upper) absent

/-- Blocks of cells summed up. -/
theorem blocks_cell {tall wide : Nat} {axes : List Nat} (only : ∀ k, k ∈ axes ↔ k < 6 ∧ Int.ofNat k ∈ [(3 : Int), 5])
    (shape : t.shape = [batch, channels, tall * down, wide * right])
    (inside : Shape.Contains [batch, channels, tall, wide] [b, c, y, z]) :
    ((t.reshape [batch, channels, tall, down, wide, right]).sum axes).cell [b, c, y, z] =
      ∑ i ∈ range down, ∑ j ∈ range right, t.cell [b, c, y * down + i, z * right + j] := by
  have kept : Shape.keep [batch, channels, tall, down, wide, right] axes = [batch, channels, tall, wide] :=
    Gradient.keep_blocks only
  have along : Shape.select [batch, channels, tall, down, wide, right] axes = [down, right] := by
    simp [Shape.select_eq, Shape.selectFrom, only]
  refine (sum_cell (kept ▸ inside)).trans ?_
  show ∑ n ∈ Shape.box (Shape.select [batch, channels, tall, down, wide, right] axes),
    (t.reshape [batch, channels, tall, down, wide, right]).cell (Shape.merge axes 6 0 [b, c, y, z] n) = _
  rw [along]
  simp only [Shape.sum_box_cons, Shape.sum_box_nil]
  refine Finset.sum_congr rfl fun i row => Finset.sum_congr rfl fun j column => ?_
  have row := Finset.mem_range.mp row
  have column := Finset.mem_range.mp column
  obtain ⟨inB, inC, inY, inZ, -⟩ := inside
  have merged : Shape.merge axes 6 0 [b, c, y, z] [i, j] = [b, c, y, i, z, j] := by
    simp [Shape.merge, only]
  rw [merged]
  refine reshape_cell ?_ ?_
  · rw [shape]
    exact ⟨inB, inC, Tiles.cell_lt inY row, Tiles.cell_lt inZ column, trivial⟩
  · rw [shape]
    simp only [Shape.offset, Shape.volume]
    ring

/-! What pools and their gradients hold. -/

/-- Each cell of a pool is the greatest of the cells of its window. -/
structure Pools (dims : Nat × Nat) (x p : Tensor Int32) : Prop where
  greatest : ∀ b c y z, Shape.Contains p.shape [b, c, y, z] →
    IsGreatest {v | ∃ i j, i < dims.1 ∧ j < dims.2 ∧ v = x.cell [b, c, y * dims.1 + i, z * dims.2 + j]}
      (p.cell [b, c, y, z])

/-- What is handed to the windows goes to the one peak of each, and nothing to all other cells, those in no window
included; so as much arrives as is handed out, up to whole turns. -/
structure Routes (dims : Nat × Nat) (g x m : Tensor Int32) : Prop where
  peaks : ∀ b c y z, Shape.Contains g.shape [b, c, y, z] → ∃! k : Nat × Nat, Peak dims x b c y z k.1 k.2
  arrives : ∀ b c y z i j, Shape.Contains g.shape [b, c, y, z] → Peak dims x b c y z i j →
    m.cell [b, c, y * dims.1 + i, z * dims.2 + j] = g.cell [b, c, y, z]
  elsewhere : ∀ b c row column, Shape.Contains m.shape [b, c, row, column] →
    (∀ y z i j, Shape.Contains g.shape [b, c, y, z] → Peak dims x b c y z i j →
      ¬(row = y * dims.1 + i ∧ column = z * dims.2 + j)) → m.cell [b, c, row, column] = 0
  total : ∑ index ∈ Shape.box m.shape, (m.cell index).toInt ≡
    ∑ index ∈ Shape.box g.shape, (g.cell index).toInt [ZMOD 2 ^ 32]

theorem pools_maxpool {p : Tensor Int32} (sizes : 1 ≤ down ∧ 1 ≤ right) (same : p.Same (maxpool (down, right) x)) :
    Pools (down, right) x p := by
  constructor
  intro b c y z inside
  rw [same.cells _ inside]
  exact maxpool_greatest sizes

theorem paired_ones (t : Tensor Int32) :
    Int32.paired t ⟨t.shape, fun _ => 1⟩ = ∑ index ∈ Shape.box t.shape, (t.cell index).toInt :=
  Finset.sum_congr rfl fun _ _ => Int.mul_one _

theorem routes_maxpoolGradient {m : Tensor Int32} (shape : x.shape = [batch, channels, height, width])
    (tiled : Tiles down right (height / down) (width / right) height width)
    (gradient : g.shape = [batch, channels, height / down, width / right])
    (same : m.Same (maxpoolGradient (down, right) g x)) : Routes (down, right) g x m := by
  have whole : m.shape = x.shape := same.shape
  have crest : ∀ {b c y z i j}, Peak (down, right) x b c y z i j →
      summit (down, right) x [b, c, y, z] = [b, c, y * down + i, z * right + j] := by
    intro b c y z i j peak
    rw [summit, (peak_iff peak.row peak.column).mp peak, (Tiles.split i peak.column).1, (Tiles.split i peak.column).2]
  constructor
  case peaks =>
    intro b c y z _
    obtain ⟨i, j, peak⟩ := exists_peak (x := x) (b := b) (c := c) (y := y) (z := z) tiled.sizes
    refine ⟨(i, j), peak, fun k other => ?_⟩
    have place := (peak_iff peak.row peak.column).mp peak
    rw [(peak_iff other.row other.column).mp other] at place
    have row := congrArg (· / right) place
    have column := congrArg (· % right) place
    simp only [(Tiles.split k.1 other.column).1, (Tiles.split i peak.column).1] at row
    simp only [(Tiles.split k.1 other.column).2, (Tiles.split i peak.column).2] at column
    exact Prod.ext row column
  case arrives =>
    intro b c y z i j inside peak
    have inside := gradient ▸ inside
    rw [← crest peak, same.cells _ (whole ▸ contains_summit shape tiled inside)]
    exact maxpoolGradient_summit shape tiled inside
  case elsewhere =>
    intro b c row column inside off
    rw [same.cells _ inside]
    refine maxpoolGradient_off shape tiled (whole ▸ inside) fun w within same => ?_
    obtain ⟨b', c', y, z, rfl, -⟩ := Shape.contains_four within
    obtain ⟨i, j, peak⟩ := exists_peak (x := x) (b := b') (c := c') (y := y) (z := z) tiled.sizes
    rw [crest peak] at same
    simp only [List.cons.injEq, and_true] at same
    obtain ⟨rfl, rfl, rows, columns⟩ := same
    exact off y z i j (gradient ▸ within) peak ⟨rows.symm, columns.symm⟩
  case total =>
    rw [← paired_ones, ← paired_ones]
    refine Int32.paired_of_dot ?_
    calc dot ⟨m.shape, fun _ => 1⟩ m = dot ⟨x.shape, fun _ => 1⟩ (maxpoolGradient (down, right) g x) :=
          dot_same ⟨whole, fun _ _ => rfl⟩ same rfl
      _ = ∑ w ∈ Shape.box g.shape, g.cell w * 1 := dot_maxpoolGradient shape tiled gradient
      _ = dot ⟨g.shape, fun _ => 1⟩ g := Finset.sum_congr rfl fun w _ => mul_comm ..

/-- What is gathered of a tensor over the windows of features: its cells at the peaks. -/
structure Gathered (dims : Nat × Nat) (x u r : Tensor Int32) (s : Shape) : Prop where
  shape : r.shape = s
  cells : ∀ w, Shape.Contains s w → r.cell w = u.cell (summit dims x w)

theorem Gathered.dot {r : Tensor Int32} (gathered : Gathered (down, right) x u r g.shape)
    (shape : x.shape = [batch, channels, height, width])
    (tiled : Tiles down right (height / down) (width / right) height width)
    (gradient : g.shape = [batch, channels, height / down, width / right]) :
    Tensor.dot u (maxpoolGradient (down, right) g x) = Tensor.dot r g := by
  rw [dot_maxpoolGradient shape tiled gradient]
  refine Finset.sum_congr rfl fun w inside => ?_
  rw [gathered.cells w (Shape.mem_box.mp inside), mul_comm]

/-- The rule gathers: it multiplies by what arrives of ones, and sums up the cells of each window. -/
theorem gathered_blocks {o s : Tensor Int32} {axes : List Nat}
    (only : ∀ k, k ∈ axes ↔ k < 6 ∧ Int.ofNat k ∈ [(3 : Int), 5])
    (shape : x.shape = [batch, channels, height, width])
    (ones : ∀ w, Shape.Contains [batch, channels, height / down, width / right] w → o.cell w = 1)
    (cut : s.shape = [batch, channels, height / down * down, width / right * right])
    (cells : ∀ index, Shape.Contains s.shape index →
      s.cell index = (maxpoolGradient (down, right) o x).cell index * u.cell index)
    (tiled : Tiles down right (height / down) (width / right) height width) :
    Gathered (down, right) x u
      ((s.reshape [batch, channels, height / down, down, width / right, right]).sum axes)
      [batch, channels, height / down, width / right] := by
  refine ⟨sum_shape.trans (Gradient.keep_blocks only), fun w inside => ?_⟩
  obtain ⟨b, c, y, z, rfl, inB, inC, inY, inZ⟩ := Shape.contains_four inside
  rw [blocks_cell only cut inside, summit,
    ← sum_hits (fun i j => u.cell [b, c, y * down + i, z * right + j]) (foremost_lt tiled.sizes)]
  refine Finset.sum_congr rfl fun i row => Finset.sum_congr rfl fun j column => ?_
  have row := Finset.mem_range.mp row
  have column := Finset.mem_range.mp column
  have within : Shape.Contains s.shape [b, c, y * down + i, z * right + j] := by
    rw [cut]
    exact ⟨inB, inC, Tiles.cell_lt inY row, Tiles.cell_lt inZ column, trivial⟩
  rw [cells _ within, maxpoolGradient_cell shape ⟨inB, inC, inY, inZ, row, column, trivial⟩, ones _ inside]
  exact congrArg (· * _) (mul_one _)

end Tensor
end TensorDag
