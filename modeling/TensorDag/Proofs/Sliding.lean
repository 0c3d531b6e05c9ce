import TensorDag.Operator.Demands
import TensorDag.Proofs.Holding
import TensorDag.Proofs.Polynomial
import TensorDag.Proofs.Spelling
import TensorDag.Proofs.Sums

/-!
Convolutions step by step, with shapes of their own. Features get margins, every window over them is seen, and the
windows at the strides are kept; a gradient of features is added up in the padded features, one cell of the filters
after another, and the margins are cut off. No step looks at the shape that the rules have inferred. Where the rules
accept the shapes every step goes through, and the cells are those of `Tensor.convolution`, `Tensor.filtersGradient`
and `Tensor.featuresGradient`.
-/
namespace TensorDag
open Result (bind_eq_ok pure_eq_ok)

namespace Shape

/-- How many places there are from the first on, before a stop, in steps. -/
def steps (first stop step : Nat) : Nat := (stop - first + step - 1) / step

theorem steps_eq {first stop step count : Nat} (before : first + step * count < stop)
    (behind : stop ≤ first + step * (count + 1)) : steps first stop step = count + 1 := by
  rw [Nat.mul_succ] at behind
  refine Nat.div_eq_of_lt_le ?_ ?_
  · rw [Nat.mul_comm, Nat.mul_succ]
    omega
  · rw [Nat.mul_comm, Nat.mul_succ, Nat.mul_succ]
    omega

/-- So many windows of a size there are along an axis, in steps. -/
structure Covered (size window step count : Nat) : Prop where
  positive : 1 ≤ step
  fits : window ≤ size
  counted : (size - window) / step + 1 = count

namespace Covered
variable {size window step count : Nat}

theorem windows (covered : Covered size window step count) : steps 0 (size - window + 1) step = count := by
  obtain ⟨positive, _, rfl⟩ := covered
  have below := Nat.mul_div_le (size - window) step
  have above := Nat.lt_mul_div_succ (size - window) positive
  exact steps_eq (by omega) (by omega)

theorem places (covered : Covered size window step count) {i : Nat} (inside : i < window) :
    steps i (min (i + step * count) size) step = count := by
  obtain ⟨positive, fits, rfl⟩ := covered
  have below := Nat.mul_div_le (size - window) step
  refine steps_eq ?_ (min_le_left ..)
  rw [Nat.mul_succ]
  omega

theorem count_le (covered : Covered size window step count) (some : 1 ≤ window) : count ≤ size := by
  obtain ⟨_, fits, rfl⟩ := covered
  have := Nat.div_le_self (size - window) step
  omega

end Covered
end Shape

open Shape (Covered)

theorem covered_of_fdiv {size margin window step count : Nat} (positive : 1 ≤ step)
    (fits : (window : Int) ≤ size + 2 * margin)
    (counted : (count : Int) = Int.fdiv (size + 2 * margin - window) step + 1) :
    Covered (size + 2 * margin) window step count := by
  have room : window ≤ size + 2 * margin := by omega
  have rest : (size : Int) + 2 * margin - window = (size + 2 * margin - window : Nat) := by omega
  refine ⟨positive, room, ?_⟩
  rw [rest, Int.fdiv_eq_ediv_of_nonneg _ (Int.natCast_nonneg step), ← Int.natCast_ediv] at counted
  exact (Int.ofNat.inj counted).symm

theorem places_pos {size window stride : Int} (forward : 1 ≤ stride) (fits : window ≤ size) :
    1 ≤ (size - window).fdiv stride + 1 := by
  have := Int.fdiv_nonneg (Int.sub_nonneg_of_le fits) (Int.le_trans Int.one_nonneg forward)
  omega

theorem convolutionShape_eq_ok {batch channels height width outputs inputs rows columns : Int} {p s : Int × Int}
    {dims : List Int} (forward : 1 ≤ s.1 ∧ 1 ≤ s.2) :
    convolutionShape [batch, channels, height, width] [outputs, inputs, rows, columns] p s = .ok dims ↔
      channels = inputs ∧ rows ≤ height + 2 * p.1 ∧ columns ≤ width + 2 * p.2 ∧ dims = [batch, outputs,
        (height + 2 * p.1 - rows).fdiv s.1 + 1, (width + 2 * p.2 - columns).fdiv s.2 + 1] := by
  have steps : ¬(s.1 = 0 ∨ s.2 = 0) := by omega
  by_cases same : channels = inputs
  · by_cases fits : rows ≤ height + 2 * p.1 ∧ columns ≤ width + 2 * p.2
    · have down := places_pos forward.1 fits.1
      have right := places_pos forward.2 fits.2
      rw [convolutionShape, if_neg (not_not_intro same), if_neg steps]
      dsimp only
      rw [if_neg (by omega)]
      simp [same, fits, eq_comm]
    · rw [convolutionShape, if_neg (not_not_intro same), if_neg steps]
      dsimp only
      rw [if_pos (by omega)]
      exact ⟨nofun, fun both => absurd ⟨both.2.1, both.2.2.1⟩ fits⟩
  · rw [convolutionShape, if_pos same]
    exact ⟨nofun, fun both => absurd both.1 same⟩

namespace ConvolutionAttributes

/-- The shape of a convolution, from the sizes of its features and filters. -/
theorem shape_iff {c : ConvolutionAttributes} {batch channels height width outputs inputs rows columns : Nat}
    {s : Shape} (slides : Kind.Slides c) :
    c.shape [batch, channels, height, width] [outputs, inputs, rows, columns] = .ok s ↔
      channels = inputs ∧ (rows : Int) ≤ height + 2 * c.padding.1 ∧ (columns : Int) ≤ width + 2 * c.padding.2 ∧
        s.map Int.ofNat = [(batch : Int), (outputs : Int), (height + 2 * c.padding.1 - rows).fdiv c.stride.1 + 1,
          (width + 2 * c.padding.2 - columns).fdiv c.stride.2 + 1] := by
  rw [shape, bind_eq_ok]
  simp only [List.map_cons, List.map_nil, convolutionShape_eq_ok slides.steps, pure_eq_ok]
  constructor
  · rintro ⟨_, ⟨same, tall, wide, rfl⟩, rfl⟩
    have down := places_pos slides.steps.1 tall
    have right := places_pos slides.steps.2 wide
    refine ⟨Int.ofNat.inj same, tall, wide, ?_⟩
    simpa using ⟨Int.le_trans Int.one_nonneg down, Int.le_trans Int.one_nonneg right⟩
  · rintro ⟨same, tall, wide, dims⟩
    refine ⟨_, ⟨congrArg Int.ofNat same, tall, wide, rfl⟩, ?_⟩
    exact (congrArg (List.map Int.toNat) dims.symm).trans s.toNat_ofNat

/-- The dimensions of a convolution, with as many windows as there are steps. -/
theorem shape_covered {c : ConvolutionAttributes} {features filters shape : Shape}
    (slides : Kind.Slides c) (fits : c.shape features filters = .ok shape) :
    ∃ batches channels height width outputs rows columns tall wide,
      features = [batches, channels, height, width] ∧ filters = [outputs, channels, rows, columns] ∧
        shape = [batches, outputs, tall, wide] ∧
        Covered (height + 2 * c.windowing.padding.1) rows c.windowing.stride.1 tall ∧
          Covered (width + 2 * c.windowing.padding.2) columns c.windowing.stride.2 wide := by
  obtain ⟨batches, channels, height, width, outputs, rows, columns, tall, wide, rfl, rfl, rfl⟩ := shape_eq_ok fits
  obtain ⟨_, rowsFit, columnsFit, dims⟩ := (shape_iff slides).mp fits
  obtain ⟨⟨top, left⟩, ⟨down, right⟩, features, filters⟩ := c
  obtain ⟨⟨upper, lower⟩, first, second⟩ := slides
  lift top to Nat using upper
  lift left to Nat using lower
  lift down to Nat using Int.le_trans Int.one_nonneg first
  lift right to Nat using Int.le_trans Int.one_nonneg second
  simp only [List.map_cons, List.map_nil, List.cons.injEq, Int.ofNat_eq_natCast, and_true, true_and] at dims
  exact ⟨_, _, _, _, _, _, _, _, _, rfl, rfl, rfl, covered_of_fdiv (Int.ofNat_le.mp first) rowsFit dims.1,
    covered_of_fdiv (Int.ofNat_le.mp second) columnsFit dims.2⟩

end ConvolutionAttributes

namespace Shape
variable {a b c d : Nat} {s : Shape} {index : Index}

theorem contains_cons (inside : Contains (d :: s) index) : ∃ i rest, index = i :: rest ∧ i < d ∧ Contains s rest := by
  cases index with
  | nil => exact inside.elim
  | cons i rest => exact ⟨i, rest, rfl, inside⟩

theorem contains_two (inside : Contains [a, b] index) : ∃ i j, index = [i, j] ∧ i < a ∧ j < b := by
  obtain ⟨i, _, rfl, first, inside⟩ := contains_cons inside
  obtain ⟨j, _, rfl, second, inside⟩ := contains_cons inside
  cases List.eq_nil_of_length_eq_zero inside.length
  exact ⟨i, j, rfl, first, second⟩

theorem contains_three (inside : Contains [a, b, c] index) : ∃ i j k, index = [i, j, k] ∧ i < a ∧ j < b ∧ k < c := by
  obtain ⟨i, _, rfl, first, inside⟩ := contains_cons inside
  obtain ⟨j, k, rfl, second, third⟩ := contains_two inside
  exact ⟨i, j, k, rfl, first, second, third⟩

theorem contains_four (inside : Contains [a, b, c, d] index) :
    ∃ i j k l, index = [i, j, k, l] ∧ i < a ∧ j < b ∧ k < c ∧ l < d := by
  obtain ⟨i, _, rfl, first, inside⟩ := contains_cons inside
  obtain ⟨j, k, l, rfl, second, third, fourth⟩ := contains_three inside
  exact ⟨i, j, k, l, rfl, first, second, third, fourth⟩

end Shape

namespace Tensor
variable {α : Type}

/-- Tensors of the same cells. -/
structure Same (a b : Tensor α) : Prop where
  shape : a.shape = b.shape
  cells : ∀ index, Shape.Contains a.shape index → a.cell index = b.cell index

theorem total_congr [Zero α] [Add α] {s : Shape} {f f' : Index → α}
    (same : ∀ index, Shape.Contains s index → f index = f' index) :
    total (Shape.indices s) f = total (Shape.indices s) f' :=
  List.foldl_ext _ _ _ fun _ index listed => by rw [same index (Shape.mem_indices.mp listed)]

def held (t : Tensor α) : Result (Tensor α) := if t.shape.holdable then .ok t else .fault .notAddressable

theorem held_eq {t : Tensor α} (holdable : t.shape.Holdable) : t.held = .ok t :=
  if_pos (Shape.holdable_iff.mpr holdable)

/-! Windows over features of four axes. -/

def strided (steps : List Nat) (t : Tensor α) : Tensor α :=
  ⟨List.zipWith (fun step dim => Shape.steps 0 dim step) steps t.shape, fun index =>
    t.cell (List.zipWith (· * ·) index steps)⟩

/-- Every window along the last two axes, with two axes more for its cells. -/
def windows (rows columns : Nat) (t : Tensor α) : Result (Tensor α) :=
  let height := t.shape.getD 2 0
  let width := t.shape.getD 3 0
  if height < rows ∨ width < columns then .fault .doesNotStretch
  else held ⟨t.shape.take 2 ++ [height - rows + 1, width - columns + 1, rows, columns], fun index =>
    t.cell (List.zipWith (· + ·) (index.take 4) (0 :: 0 :: index.drop 4))⟩

section
variable {w : Windowing} {x : Tensor α} {batch channels height width rows columns tall wide : Nat}

theorem windows_eq (shape : x.shape = [batch, channels, height, width]) (down : rows ≤ height)
    (right : columns ≤ width)
    (holds : Shape.Holdable [batch, channels, height - rows + 1, width - columns + 1, rows, columns]) :
    x.windows rows columns = .ok ⟨[batch, channels, height - rows + 1, width - columns + 1, rows, columns], fun index =>
      x.cell (List.zipWith (· + ·) (index.take 4) (0 :: 0 :: index.drop 4))⟩ := by
  rw [windows, shape]
  exact (if_neg (not_or.mpr ⟨Nat.not_lt.mpr down, Nat.not_lt.mpr right⟩)).trans (held_eq holds)

variable [Zero α]

/-- The windows at the strides, over features with margins of zeros. -/
def field [Memory] (w : Windowing) (rows columns : Nat) (x : Tensor α) : Result (Tensor α) := do
  let margins := [0, 0, w.padding.1, w.padding.2]
  let framed := x.pad margins margins
  Shape.room framed.shape
  return (← framed.windows rows columns).strided [1, 1, w.stride.1, w.stride.2, 1, 1]

theorem pad_cell {b c : Nat} (shape : x.shape = [batch, channels, height, width]) (first : b < batch)
    (second : c < channels) (row column : Nat) :
    (x.pad [0, 0, w.padding.1, w.padding.2] [0, 0, w.padding.1, w.padding.2]).cell [b, c, row, column] =
      padded w x b c row column := by
  simp only [pad, padded, shape, List.zip_cons_cons, List.zip_nil_left, List.zipWith_cons_cons, List.zipWith_nil_left]
  simp [first, second, and_assoc]

/-- There are as many windows as the rule counts, and they hold the cells of the padded features. -/
theorem field_eq [Memory] (shape : x.shape = [batch, channels, height, width])
    (down : Covered (height + 2 * w.padding.1) rows w.stride.1 tall)
    (right : Covered (width + 2 * w.padding.2) columns w.stride.2 wide)
    (room : Shape.room (w.framed x.shape) = .ok ()) (holds : (w.sweep x.shape rows columns).Holdable) :
    ∃ t, x.field w rows columns = .ok t ∧ t.shape = [batch, channels, tall, wide, rows, columns] ∧
      ∀ b c y z i j, b < batch → c < channels →
        t.cell [b, c, y, z, i, j] = padded w x b c (y * w.stride.1 + i) (z * w.stride.2 + j) := by
  have framed : (x.pad [0, 0, w.padding.1, w.padding.2] [0, 0, w.padding.1, w.padding.2]).shape =
      [batch, channels, height + 2 * w.padding.1, width + 2 * w.padding.2] := by
    have sides : ∀ size margin : Nat, margin + size + margin = size + 2 * margin := fun size margin => by omega
    simp [pad, shape, sides]
  rw [shape] at room holds
  have whole : ∀ dim, Shape.steps 0 dim 1 = dim := fun dim => by simp [Shape.steps]
  refine ⟨_, bind_eq_ok.mpr ⟨(), by rw [framed]; exact room, bind_eq_ok.mpr
    ⟨_, windows_eq framed down.fits right.fits holds, rfl⟩⟩, ?_, fun b c y z i j first second => ?_⟩
  · simp [strided, whole, down.windows, right.windows]
  · rw [← pad_cell shape first second]
    simp [strided]

end

section
variable [Zero α] [Add α] [Mul α] {w : Windowing} {x g filters : Tensor α} {features shape : Shape}
  {batch channels outputs height width rows columns tall wide : Nat}

/-- Windows times filters, added up for each place and output. -/
def correlate (windows filters : Tensor α) : Result (Tensor α) :=
  let s := windows.shape
  if filters.shape.drop 1 ≠ [s.getD 1 0, s.getD 4 0, s.getD 5 0] then .fault .doesNotStretch
  else .ok ⟨[s.getD 0 0, filters.shape.getD 0 0, s.getD 2 0, s.getD 3 0], fun index =>
    total (Shape.indices (filters.shape.drop 1)) fun inner =>
      windows.cell [index.getD 0 0, inner.getD 0 0, index.getD 2 0, index.getD 3 0, inner.getD 1 0, inner.getD 2 0] *
        filters.cell (index.getD 1 0 :: inner)⟩

/-- Windows times a gradient, added up for each cell of the filters. -/
def weigh (windows g : Tensor α) : Result (Tensor α) :=
  let s := windows.shape
  let places := [g.shape.getD 0 0, g.shape.getD 2 0, g.shape.getD 3 0]
  if places ≠ [s.getD 0 0, s.getD 2 0, s.getD 3 0] then .fault .doesNotStretch
  else .ok ⟨[g.shape.getD 1 0, s.getD 1 0, s.getD 4 0, s.getD 5 0], fun index =>
    total (Shape.indices places) fun inner =>
      windows.cell [inner.getD 0 0, index.getD 1 0, inner.getD 1 0, inner.getD 2 0, index.getD 2 0, index.getD 3 0] *
        g.cell [inner.getD 0 0, index.getD 0 0, inner.getD 1 0, inner.getD 2 0]⟩

def convolutionBySteps [Memory] (w : Windowing) (x filters : Tensor α) : Result (Tensor α) := do
  (← x.field w (filters.shape.getD 2 0) (filters.shape.getD 3 0)).correlate filters

def filtersGradientBySteps [Memory] (w : Windowing) (shape : Shape) (g x : Tensor α) : Result (Tensor α) := do
  (← x.field w (shape.getD 2 0) (shape.getD 3 0)).weigh g

/-- Windows times filters have the shape of the rule and the cells of the convolution. -/
theorem convolutionBySteps_eq [Memory] {c : ConvolutionAttributes} (slides : Kind.Slides c)
    (fits : c.shape x.shape filters.shape = .ok shape) (room : Shape.room (c.windowing.framed x.shape) = .ok ())
    (holds : (c.windowing.sweep x.shape (filters.shape.getD 2 0) (filters.shape.getD 3 0)).Holdable) :
    ∃ t, x.convolutionBySteps c.windowing filters = .ok t ∧ t.Same (convolution c.windowing shape x filters) := by
  obtain ⟨batch, channels, height, width, outputs, rows, columns, tall, wide, features, kernel, rfl, down, right⟩ :=
    c.shape_covered slides fits
  rw [kernel] at holds
  obtain ⟨t, seen, dims, cells⟩ := field_eq features down right room holds
  have same : ¬filters.shape.drop 1 ≠ [t.shape.getD 1 0, t.shape.getD 4 0, t.shape.getD 5 0] := by simp [kernel, dims]
  refine ⟨_, bind_eq_ok.mpr ⟨t, by rw [kernel]; exact seen, if_neg same⟩, by simp [convolution, kernel, dims], ?_⟩
  intro index inside
  simp only [kernel, dims] at inside
  obtain ⟨b, o, y, z, rfl, first, _, _, _⟩ := Shape.contains_four inside
  refine total_congr fun inner within => ?_
  rw [kernel] at within
  obtain ⟨k, i, j, rfl, second, _, _⟩ := Shape.contains_three within
  exact congrArg (· * _) (cells b k y z i j first second)

/-- Windows times a gradient have the shape of the filters and the cells of their gradient. -/
theorem filtersGradientBySteps_eq [Memory] {c : ConvolutionAttributes} (slides : Kind.Slides c)
    (fits : c.shape x.shape shape = .ok g.shape) (room : Shape.room (c.windowing.framed x.shape) = .ok ())
    (holds : (c.windowing.sweep x.shape (shape.getD 2 0) (shape.getD 3 0)).Holdable) :
    ∃ t, g.filtersGradientBySteps c.windowing shape x = .ok t ∧ t.Same (filtersGradient c.windowing shape g x) := by
  obtain ⟨batch, channels, height, width, outputs, rows, columns, tall, wide, features, rfl, gradient, down, right⟩ :=
    c.shape_covered slides fits
  obtain ⟨t, seen, dims, cells⟩ := field_eq features down right room holds
  have same : ¬[g.shape.getD 0 0, g.shape.getD 2 0, g.shape.getD 3 0] ≠
      [t.shape.getD 0 0, t.shape.getD 2 0, t.shape.getD 3 0] := by simp [gradient, dims]
  refine ⟨_, bind_eq_ok.mpr ⟨t, seen, if_neg same⟩, by simp [filtersGradient, gradient, dims], ?_⟩
  intro index inside
  simp only [gradient, dims] at inside
  obtain ⟨o, k, i, j, rfl, _, second, _, _⟩ := Shape.contains_four inside
  refine total_congr fun inner within => ?_
  simp only [gradient] at within
  obtain ⟨b, y, z, rfl, first, _, _⟩ := Shape.contains_three within
  exact congrArg (· * _) (cells b k y z i j first second)

/-! Gradients of features. -/

/-- A gradient times one cell of the filters, added up for each channel. -/
def mix (g filters : Tensor α) (i j : Nat) : Tensor α :=
  ⟨[g.shape.getD 0 0, filters.shape.getD 1 0, g.shape.getD 2 0, g.shape.getD 3 0], fun index =>
    total (Shape.indices [filters.shape.getD 0 0]) fun inner =>
      g.cell [index.getD 0 0, inner.headD 0, index.getD 2 0, index.getD 3 0] *
        filters.cell [inner.headD 0, index.getD 1 0, i, j]⟩

/-- What a part adds to a cell: its places lie at the strides from `i` and `j` on, and elsewhere it adds nothing. -/
def share (w : Windowing) (part : Tensor α) (i j : Nat) (index : Index) : α :=
  ((windowAt? w.stride.1 (part.shape.getD 2 0) (index.getD 2 0) i).bind fun y =>
    (windowAt? w.stride.2 (part.shape.getD 3 0) (index.getD 3 0) j).map fun z =>
      part.cell [index.getD 0 0, index.getD 1 0, y, z]).getD 0

/-- A part added to the cells at the strides from `i` and `j` on, of which there have to be as many. -/
def addAlong (w : Windowing) (i j : Nat) (grad part : Tensor α) : Result (Tensor α) :=
  let tall := Shape.steps i (min (i + w.stride.1 * part.shape.getD 2 0) (grad.shape.getD 2 0)) w.stride.1
  let wide := Shape.steps j (min (j + w.stride.2 * part.shape.getD 3 0) (grad.shape.getD 3 0)) w.stride.2
  if part.shape ≠ grad.shape.take 2 ++ [tall, wide] then .fault .doesNotStretch
  else .ok ⟨grad.shape, fun index => grad.cell index + share w part i j index⟩

omit [Mul α] in
theorem addAlong_eq {grad part : Tensor α} {i j : Nat} (field : grad.shape = [batch, channels, height, width])
    (sized : part.shape = [batch, channels, tall, wide]) (down : Covered height rows w.stride.1 tall)
    (right : Covered width columns w.stride.2 wide) (row : i < rows) (column : j < columns) :
    addAlong w i j grad part = .ok ⟨grad.shape, fun index => grad.cell index + share w part i j index⟩ := by
  refine if_neg (not_not_intro ?_)
  simp [field, sized, down.places row, right.places column]

/-- What one cell of the filters adds to a gradient of padded features. -/
def spreadCell (w : Windowing) (g filters grad : Tensor α) (inner : Index) : Result (Tensor α) :=
  if g.shape.getD 1 0 ≠ filters.shape.getD 0 0 then .fault .doesNotStretch
  else addAlong w (inner.getD 0 0) (inner.getD 1 0) grad (mix g filters (inner.getD 0 0) (inner.getD 1 0))

/-- A gradient of features of a shape, one cell of the filters after another; margins are cut off in the end. -/
def featuresGradientBySteps [Memory] (w : Windowing) (shape : Shape) (g filters : Tensor α) : Result (Tensor α) := do
  let height := shape.getD 2 0
  let width := shape.getD 3 0
  let zeros : Tensor α := ⟨w.framed shape, fun _ => 0⟩
  Shape.room zeros.shape
  let full ← (Shape.indices (filters.shape.drop 2)).foldlM (spreadCell w g filters) zeros
  let ends := shape.take 2 ++ [w.padding.1 + height, w.padding.2 + width]
  return full.slice [0, 0, w.padding.1, w.padding.2] (List.zipWith min ends full.shape)

/-- A gradient of padded features with all that some cells of the filters add to it. -/
def spread (w : Windowing) (g filters grad : Tensor α) (cells : List Index) : Tensor α :=
  ⟨grad.shape, fun index =>
    cells.foldl (fun sum inner => sum + share w (mix g filters (inner.getD 0 0) (inner.getD 1 0))
      (inner.getD 0 0) (inner.getD 1 0) index) (grad.cell index)⟩

/-- Each cell of the filters meets as many places as the gradient has, so that all of them are added. -/
theorem foldlM_spreadCell {grad : Tensor α} {cells : List Index} (gradient : g.shape = [batch, outputs, tall, wide])
    (kernel : filters.shape = [outputs, channels, rows, columns])
    (field : grad.shape = [batch, channels, height, width])
    (down : Covered height rows w.stride.1 tall) (right : Covered width columns w.stride.2 wide)
    (inside : ∀ inner ∈ cells, Shape.Contains [rows, columns] inner) :
    cells.foldlM (spreadCell w g filters) grad = .ok (spread w g filters grad cells) := by
  induction cells generalizing grad with
  | nil => rfl
  | cons inner rest ih =>
    obtain ⟨here, later⟩ := List.forall_mem_cons.mp inside
    obtain ⟨i, j, rfl, row, column⟩ := Shape.contains_two here
    have outputs : ¬g.shape.getD 1 0 ≠ filters.shape.getD 0 0 := by simp [gradient, kernel]
    have sized : (mix g filters i j).shape = [batch, channels, tall, wide] := by simp [mix, gradient, kernel]
    have added : spreadCell w g filters grad [i, j] =
        .ok ⟨grad.shape, fun index => grad.cell index + share w (mix g filters i j) i j index⟩ :=
      (if_neg outputs).trans (addAlong_eq field sized down right row column)
    rw [List.foldlM_cons, added]
    exact ih field later

/-- The gradient added up has the shape of the features and the cells of their gradient. -/
theorem featuresGradientBySteps_eq [Memory] {c : ConvolutionAttributes} (slides : Kind.Slides c)
    (fits : c.shape shape filters.shape = .ok g.shape) (room : Shape.room (c.windowing.framed shape) = .ok ()) :
    ∃ t, g.featuresGradientBySteps c.windowing shape filters = .ok t ∧
      t.Same (featuresGradient c.windowing shape g filters) := by
  obtain ⟨batch, channels, height, width, outputs, rows, columns, tall, wide, rfl, kernel, gradient, down, right⟩ :=
    c.shape_covered slides fits
  let w := c.windowing
  let zeros : Tensor α := ⟨[batch, channels, height + 2 * w.padding.1, width + 2 * w.padding.2], fun _ => 0⟩
  have inside : ∀ inner ∈ Shape.indices (filters.shape.drop 2), Shape.Contains [rows, columns] inner := by
    rw [kernel]
    exact fun inner listed => Shape.mem_indices.mp listed
  have added : (Shape.indices (filters.shape.drop 2)).foldlM (spreadCell w g filters) zeros =
      .ok (spread w g filters zeros _) :=
    foldlM_spreadCell gradient kernel rfl down right inside
  have cut : (slice [0, 0, w.padding.1, w.padding.2] (List.zipWith min
      [batch, channels, w.padding.1 + height, w.padding.2 + width] zeros.shape) zeros).shape =
        [batch, channels, height, width] := by
    have middle : ∀ size margin : Nat, min (margin + size) (size + 2 * margin) - margin = size :=
      fun size margin => by omega
    simp [slice, zeros, middle]
  refine ⟨_, bind_eq_ok.mpr ⟨(), room, bind_eq_ok.mpr ⟨_, added, rfl⟩⟩, cut, fun index inside => ?_⟩
  obtain ⟨b, k, y, z, rfl, _, _, _, _⟩ := Shape.contains_four (cut ▸ inside)
  refine total_congr (f := fun inner => share w (mix g filters (inner.getD 0 0) (inner.getD 1 0)) (inner.getD 0 0)
    (inner.getD 1 0) [0 + b, 0 + k, w.padding.1 + y, w.padding.2 + z]) fun inner within => ?_
  rw [kernel] at within
  obtain ⟨i, j, rfl, _, _⟩ := Shape.contains_two within
  show ((windowAt? w.stride.1 (g.shape.getD 2 0) (w.padding.1 + y) i).bind fun y' =>
    (windowAt? w.stride.2 (g.shape.getD 3 0) (w.padding.2 + z) j).map fun z' =>
      (mix g filters i j).cell [0 + b, 0 + k, y', z']).getD 0 = _
  rw [Nat.add_comm w.padding.1, Nat.add_comm w.padding.2, Nat.zero_add, Nat.zero_add]
  dsimp only
  cases windowAt? w.stride.1 (g.shape.getD 2 0) (y + w.padding.1) i with
  | none => rfl
  | some =>
    cases windowAt? w.stride.2 (g.shape.getD 3 0) (z + w.padding.2) j with
    | none => rfl
    | some => rfl

end
end Tensor
end TensorDag
