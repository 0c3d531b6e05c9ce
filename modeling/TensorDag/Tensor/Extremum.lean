import TensorDag.Tensor.Arithmetic
import TensorDag.Element

/-!
Maxima, the place of a minimum, and what is built on them: pooling and softmax. An undefined element
counts as the extremum, the first of several as its place.
-/
namespace TensorDag.Tensor
variable {α : Type} [Element α]

/-- The greatest of some cells, undefined if one is; zero of none. -/
def greatest : List α → α
  | [] => 0
  | first :: rest => rest.foldl Element.maximum first

/-- The maximum over some axes, which disappear; over none, the tensor itself. -/
def maximum (axes : List Nat) (t : Tensor α) : Tensor α :=
  if axes = [] then t
  else
    ⟨Shape.keep t.shape axes, fun index =>
      greatest ((Shape.indices (Shape.select t.shape axes)).map fun inner =>
        t.cell (Shape.merge axes t.shape.length 0 index inner))⟩

/-- The first place whose element comes before all others, by `before`. -/
def firstBy (before : α → α → Bool) : Nat → Nat → α → List α → Nat
  | _, best, _, [] => best
  | place, best, value, next :: rest =>
    if !Element.isUndefined value && (before next value || Element.isUndefined next) then
      firstBy before (place + 1) place next rest
    else firstBy before (place + 1) best value rest

/-- The place of the first extremum of a list. -/
def placeBy (before : α → α → Bool) : List α → Nat
  | [] => 0
  | first :: rest => firstBy before 1 0 first rest

/-- The place of the first minimum along an axis, which keeps one cell. -/
def argmin (axis : Nat) (t : Tensor α) : Tensor Nat :=
  ⟨Shape.replace t.shape axis 1, fun index =>
    placeBy Element.less
      ((List.range (t.shape.getD axis 0)).map fun k => t.cell (List.set index axis k))⟩

/-- The cells of a pooling window. -/
def window (dims : Nat × Nat) (x : Tensor α) (batch channel row column : Nat) : List α :=
  (Shape.indices [dims.1, dims.2]).map fun inner =>
    x.cell [batch, channel, row * dims.1 + inner.getD 0 0, column * dims.2 + inner.getD 1 0]

/-- The maximum of each window; rows and columns that fill none are left out. -/
def maxpool (dims : Nat × Nat) (x : Tensor α) : Tensor α :=
  ⟨[x.shape.getD 0 0, x.shape.getD 1 0, x.shape.getD 2 0 / dims.1, x.shape.getD 3 0 / dims.2],
    fun index =>
      match index with
      | [batch, channel, row, column] => greatest (window dims x batch channel row column)
      | _ => 0⟩

/-- The place of the first maximum of each window. -/
def places (dims : Nat × Nat) (x : Tensor α) : Tensor Nat :=
  ⟨(maxpool dims x).shape, fun index =>
    match index with
    | [batch, channel, row, column] =>
      placeBy (fun a b => Element.less b a) (window dims x batch channel row column)
    | _ => 0⟩

/-- The gradient of each window goes to the place of its first maximum, and none to cells outside
every window. -/
def maxpoolGradient (dims : Nat × Nat) (g x : Tensor α) : Tensor α :=
  let firsts := (places dims x).stored 0
  ⟨x.shape, fun index =>
    match index with
    | [batch, channel, row, column] =>
      let y := row / dims.1
      let z := column / dims.2
      if y < x.shape.getD 2 0 / dims.1 ∧ z < x.shape.getD 3 0 / dims.2 then
        let place := row % dims.1 * dims.2 + column % dims.2
        let hit : α := if firsts.cell [batch, channel, y, z] = place then 1 else 0
        hit * g.cell [batch, channel, y, z]
      else 0
    | _ => 0⟩

/-- The maximum along the last axis, which keeps one cell. -/
def peaks (x : Tensor α) : Tensor α :=
  ⟨(lastTotal x).shape, fun index =>
    greatest ((List.range (x.shape.getLastD 1)).map fun k => x.cell (atLast index k))⟩

/-- The distance of each cell from the maximum along the last axis. -/
def belowPeak (x : Tensor α) : Tensor α :=
  let highest := x.peaks.stored 0
  ⟨x.shape, fun index => x.cell index - highest.cell (atLast index 0)⟩

/-- Exponentials along the last axis, scaled to the sum one. -/
def scaledExp (x : Tensor α) : Tensor α :=
  let totals := (x.map Element.exp).lastTotal.stored 0
  ⟨x.shape, fun index => Element.div (Element.exp (x.cell index)) (totals.cell (atLast index 0))⟩

/-- Scaled exponentials that do not overflow, since the maximum is taken off first. -/
def softmax (x : Tensor α) : Tensor α := x.belowPeak.scaledExp

end TensorDag.Tensor
