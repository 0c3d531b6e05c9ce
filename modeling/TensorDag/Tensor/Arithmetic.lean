import TensorDag.Tensor.Layout

/-!
Elementwise operations and the sums of products built from additions and multiplications alone, so
that they make sense over every ring.
-/
namespace TensorDag.Tensor
variable {α β : Type}

/-- Cell by cell, both arguments stretched to `shape`. -/
def zipWith (f : α → α → β) (shape : Shape) (a b : Tensor α) : Tensor β :=
  ⟨shape, fun index => f (a.cell (Shape.narrow a.shape index)) (b.cell (Shape.narrow b.shape index))⟩

/-- The sum over some axes, which disappear; over none, the tensor itself. -/
def sum [Zero α] [Add α] (axes : List Nat) (t : Tensor α) : Tensor α :=
  if axes = [] then t
  else
    ⟨Shape.keep t.shape axes, fun index =>
      total (Shape.indices (Shape.select t.shape axes)) fun inner =>
        t.cell (Shape.merge axes t.shape.length 0 index inner)⟩

/-- The product of two matrices. -/
def matmul [Zero α] [Add α] [Mul α] (a b : Tensor α) : Tensor α :=
  let rows := a.shape.getD 0 0
  let inner := a.shape.getD 1 0
  let columns := b.shape.getD 1 0
  ⟨[rows, columns], fun index =>
    total (Shape.indices [inner]) fun k =>
      a.cell (index.getD 0 0 :: k) * b.cell (k ++ [index.getD 1 0])⟩

/-- The product of stacks of matrices: the last two axes are those of matrices, and an argument with
one axis alone is a row or a column that the result lacks. -/
def stackedProduct [Zero α] [Add α] [Mul α] (stack : Shape) (a b : Tensor α) : Tensor α :=
  let rows := (a.shape.drop (a.shape.length - 2)).dropLast
  let inner := (b.shape.drop (b.shape.length - 2)).headD 1
  let columns := (b.shape.drop (b.shape.length - 2)).drop 1
  ⟨stack ++ rows ++ columns, fun index =>
    let place := index.take stack.length
    let cells := index.drop stack.length
    total (Shape.indices [inner]) fun k =>
      a.cell (Shape.narrow (a.shape.take (a.shape.length - 2)) place ++ cells.take rows.length ++ k) *
        b.cell (Shape.narrow (b.shape.take (b.shape.length - 2)) place ++ k ++
          cells.drop rows.length)⟩

/-- The sum along the last axis, which keeps one cell. -/
def lastTotal [Zero α] [Add α] (t : Tensor α) : Tensor α :=
  ⟨if t.shape = [] then [] else t.shape.dropLast ++ [1], fun index =>
    total (Shape.indices [t.shape.getLastD 1]) fun k => t.cell (index.dropLast ++ k)⟩

/-- The last coordinate replaced. -/
def atLast (index : Index) (k : Nat) : Index := index.dropLast ++ [k]

/-- From a gradient `g` of `y = softmax x`: `y * (g - sum (g * y))` along the last axis. -/
def softmaxGradient [Zero α] [Add α] [Sub α] [Mul α] (g y : Tensor α) : Tensor α :=
  ⟨y.shape, fun index =>
    y.cell index * (g.cell index -
      total (Shape.indices [y.shape.getLastD 1]) fun k =>
        g.cell (index.dropLast ++ k) * y.cell (index.dropLast ++ k))⟩

end TensorDag.Tensor
