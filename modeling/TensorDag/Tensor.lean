import TensorDag.Buffer

/-!
Tensors as a shape and a cell for each index. Only the cells at indices within the shape count:
they are what `cells` lists and what a buffer holds.
-/
namespace TensorDag

structure Tensor (α : Type) where
  shape : Shape
  cell : Index → α

namespace Tensor
variable {α β : Type}

def cells (t : Tensor α) : List α := (Shape.indices t.shape).map t.cell

def map (f : α → β) (t : Tensor α) : Tensor β := ⟨t.shape, fun index => f (t.cell index)⟩

/-- The tensor of the given shape whose words a buffer holds. -/
def ofBytes (shape : Shape) (bytes : Bytes) : Tensor UInt32 :=
  ⟨shape, fun index => bytes.word (Shape.offset shape index)⟩

def ofCells (shape : Shape) (cells : Array α) (default : α) : Tensor α :=
  ⟨shape, fun index => cells.getD (Shape.offset shape index) default⟩

/-- The same cells within the shape, each of them computed once. -/
def stored (default : α) (t : Tensor α) : Tensor α := ofCells t.shape t.cells.toArray default

theorem stored_cell (default : α) {t : Tensor α} {index : Index}
    (inside : Shape.Contains t.shape index) :
    (t.stored default).cell index = t.cell index := by
  simp [stored, ofCells, cells, Array.getD_eq_getD_getElem?, Shape.indices_offset inside]

def bytes (t : Tensor UInt32) : Bytes := Bytes.ofWords t.cells

/-- The sum of `f` over some indices, added up in their order from zero. -/
def total [Zero α] [Add α] (indices : List Index) (f : Index → α) : α :=
  indices.foldl (fun sum index => sum + f index) 0

end Tensor
end TensorDag
