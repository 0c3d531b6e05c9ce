import TensorDag.Tensor.Layout

/-!
Convolution of features `[batch, channel, height, width]` with filters
`[output, channel, height, width]`, not flipped, and its two transposes.
-/
namespace TensorDag

/-- Margins and steps of a convolution, vertical and horizontal. -/
structure Windowing where
  padding : Nat × Nat
  stride : Nat × Nat
  deriving DecidableEq

namespace Tensor
variable {α : Type} [Zero α] [Add α] [Mul α]

/-- A cell of the features with margins of zeros. -/
def padded (w : Windowing) (x : Tensor α) (batch channel row column : Nat) : α :=
  if w.padding.1 ≤ row ∧ row < w.padding.1 + x.shape.getD 2 0 ∧
      w.padding.2 ≤ column ∧ column < w.padding.2 + x.shape.getD 3 0 then
    x.cell [batch, channel, row - w.padding.1, column - w.padding.2]
  else 0

/-- Each cell is the sum of a window of the features times the filter. -/
def convolution (w : Windowing) (shape : Shape) (x filters : Tensor α) : Tensor α :=
  ⟨shape, fun index =>
    match index with
    | [batch, output, row, column] =>
      total (Shape.indices (filters.shape.drop 1)) fun inner =>
        match inner with
        | [channel, i, j] =>
          padded w x batch channel (row * w.stride.1 + i) (column * w.stride.2 + j) *
            filters.cell [output, channel, i, j]
        | _ => 0
    | _ => 0⟩

/-- The place of the window that meets a padded coordinate with its cell `i`, if there is one. -/
def windowAt? (stride count place i : Nat) : Option Nat :=
  if i ≤ place ∧ (place - i) % stride = 0 ∧ (place - i) / stride < count then
    some ((place - i) / stride)
  else none

/-- Every cell of the gradient is spread over the window that it came from. -/
def featuresGradient (w : Windowing) (shape : Shape) (g filters : Tensor α) : Tensor α :=
  ⟨shape, fun index =>
    match index with
    | [batch, channel, row, column] =>
      total (Shape.indices (filters.shape.drop 2)) fun inner =>
        match inner with
        | [i, j] =>
          match windowAt? w.stride.1 (g.shape.getD 2 0) (row + w.padding.1) i,
              windowAt? w.stride.2 (g.shape.getD 3 0) (column + w.padding.2) j with
          | some y, some x =>
            total (Shape.indices [filters.shape.getD 0 0]) fun outputs =>
              g.cell [batch, outputs.headD 0, y, x] *
                filters.cell [outputs.headD 0, channel, i, j]
          | _, _ => 0
        | _ => 0
    | _ => 0⟩

/-- Each cell of the gradient is multiplied with the window that it came from. -/
def filtersGradient (w : Windowing) (shape : Shape) (g x : Tensor α) : Tensor α :=
  ⟨shape, fun index =>
    match index with
    | [output, channel, i, j] =>
      total (Shape.indices [g.shape.getD 0 0, g.shape.getD 2 0, g.shape.getD 3 0]) fun inner =>
        match inner with
        | [batch, row, column] =>
          padded w x batch channel (row * w.stride.1 + i) (column * w.stride.2 + j) *
            g.cell [batch, output, row, column]
        | _ => 0
    | _ => 0⟩

end Tensor
end TensorDag
