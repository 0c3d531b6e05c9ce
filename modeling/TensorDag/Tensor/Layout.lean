import TensorDag.Tensor

/-!
Tensors that move cells without computing: each cell of the result is a cell of the argument, or
zero in a margin.
-/
namespace TensorDag.Tensor
variable {α : Type}

/-- The same cells in row-major order under another shape. -/
def reshape (shape : Shape) (t : Tensor α) : Tensor α :=
  ⟨shape, fun index => t.cell (Shape.index t.shape (Shape.offset shape index))⟩

/-- Axis `i` of the result is axis `order[i]` of the argument. -/
def transpose (order : List Nat) (t : Tensor α) : Tensor α :=
  ⟨order.map fun axis => t.shape.getD axis 0,
    fun index => (List.range t.shape.length).map (fun axis => index.getD (order.idxOf axis) 0)
      |> t.cell⟩

def slice (start stop : List Nat) (t : Tensor α) : Tensor α :=
  ⟨List.zipWith (· - ·) stop start, fun index => t.cell (List.zipWith (· + ·) start index)⟩

/-- Margins of zeros before and after each axis. -/
def pad [Zero α] (before after : List Nat) (t : Tensor α) : Tensor α :=
  ⟨List.zipWith (· + ·) (List.zipWith (· + ·) before t.shape) after, fun index =>
    if (List.zipWith (fun low (i, dim) => low ≤ i && i < low + dim) before
        (index.zip t.shape)).all id
    then t.cell (List.zipWith (· - ·) index before)
    else 0⟩

/-- Stretch axes of one cell and add axes in front. -/
def broadcast (shape : Shape) (t : Tensor α) : Tensor α :=
  ⟨shape, fun index => t.cell (Shape.narrow t.shape index)⟩

/-- The same where leading axes of one cell may also go. -/
def fit (shape : Shape) (t : Tensor α) : Tensor α :=
  if t.shape = shape then t
  else (t.reshape (Shape.dropLeading shape.length t.shape)).broadcast shape

def flip (axes : List Nat) (t : Tensor α) : Tensor α :=
  ⟨t.shape, fun index => t.cell ((index.zip t.shape).zipIdx.map fun ((i, dim), axis) =>
    if axes.contains axis then dim - 1 - i else i)⟩

end TensorDag.Tensor
